import Chronicle.Path

/-!
What is on a disk.

A disk is a list of entries, each under the list of names that leads to it from the root. The root
is a directory and has no entry of its own. The order of the entries is the order in which directories
list them.
-/

namespace Chronicle

/-- The names from the root to an entry. -/
abbrev Key := List Bytes

inductive Entry
  | file (content : Bytes)
  | directory
  | link (target : Bytes)
  /-- a device that accepts no byte and gives zeros without end -/
  | fullDevice
  deriving DecidableEq, Repr

structure Disk where
  entries : List (Key × Entry) := []
  deriving DecidableEq, Repr

namespace Disk

def findEntry (key : Key) : List (Key × Entry) → Option Entry
  | [] => none
  | (k, v) :: rest => if k = key then some v else findEntry key rest

/-- The entry under a list of names. -/
def find? (disk : Disk) (key : Key) : Option Entry :=
  if key = [] then some .directory else findEntry key disk.entries

/-- Replaces an entry where it is listed, or lists a new one last. -/
def setEntry (key : Key) (value : Entry) : List (Key × Entry) → List (Key × Entry)
  | [] => [(key, value)]
  | (k, v) :: rest => if k = key then (key, value) :: rest else (k, v) :: setEntry key value rest

def set (disk : Disk) (key : Key) (value : Entry) : Disk := ⟨setEntry key value disk.entries⟩

def erase (disk : Disk) (key : Key) : Disk := ⟨disk.entries.filter fun entry => entry.1 != key⟩

/-- The names in a directory with what they stand for, in listing order. -/
def children (disk : Disk) (key : Key) : List (Bytes × Entry) :=
  disk.entries.filterMap fun (k, value) =>
    match k.getLast? with
    | none => none
    | some name => if k.dropLast = key then some (name, value) else none

/-- The entries strictly below a directory. -/
def below (disk : Disk) (key : Key) : List (Key × Entry) :=
  disk.entries.filter fun entry => key.isPrefixOf entry.1 && key.length < entry.1.length

/-- Every entry lies in a directory, and no key is listed twice. -/
structure WellFormed (disk : Disk) : Prop where
  keys_nodup : (disk.entries.map (·.1)).Nodup
  key_ne_nil : ∀ entry ∈ disk.entries, entry.1 ≠ []
  parent_directory : ∀ entry ∈ disk.entries, disk.find? entry.1.dropLast = some .directory

theorem find?_nil (disk : Disk) : disk.find? [] = some .directory := rfl

theorem findEntry_setEntry (key other : Key) (value : Entry) (entries : List (Key × Entry)) :
    findEntry other (setEntry key value entries) =
      if key = other then some value else findEntry other entries := by
  induction entries with
  | nil => rfl
  | cons entry rest ih =>
    obtain ⟨k, v⟩ := entry
    simp only [setEntry]
    split
    · next h => by_cases ho : key = other <;> simp [findEntry, h, ho]
    · next h =>
      simp only [findEntry, ih]
      by_cases ho : key = other
      · subst ho; simp [h]
      · simp [ho]

theorem findEntry_filter (key other : Key) (entries : List (Key × Entry)) :
    findEntry other (entries.filter fun entry => entry.1 != key) =
      if key = other then none else findEntry other entries := by
  induction entries with
  | nil => simp [findEntry]
  | cons entry rest ih =>
    obtain ⟨k, v⟩ := entry
    by_cases hk : k = key
    · rw [List.filter_cons_of_neg (by simp [hk]), ih]
      by_cases ho : key = other <;> simp [findEntry, hk, ho]
    · rw [List.filter_cons_of_pos (by simp [hk]), findEntry, ih]
      by_cases ho : key = other
      · subst ho; simp [hk]
      · simp [ho, findEntry]

theorem find?_set (disk : Disk) {key : Key} (hkey : key ≠ []) (value : Entry) (other : Key) :
    (disk.set key value).find? other = if key = other then some value else disk.find? other := by
  unfold find? set
  by_cases ho : other = []
  · subst ho; simp [hkey]
  · simp [ho, findEntry_setEntry]

theorem find?_set_self (disk : Disk) {key : Key} (hkey : key ≠ []) (value : Entry) :
    (disk.set key value).find? key = some value := by
  rw [find?_set disk hkey, if_pos rfl]

theorem find?_erase (disk : Disk) {key : Key} (hkey : key ≠ []) (other : Key) :
    (disk.erase key).find? other = if key = other then none else disk.find? other := by
  unfold find? erase
  by_cases ho : other = []
  · subst ho; simp [hkey]
  · simp [ho, findEntry_filter]

end Disk

end Chronicle
