import Chronicle.Bytes

/-!
Tables from byte strings to values, kept in ascending order of their keys.

A key occurs once. Writing a key that is there replaces its value in place, and listing a table
goes through the keys in byte order whatever order they were written in.
-/

namespace Chronicle

/-- Entries in ascending key order. -/
structure Table (β : Type) where
  entries : List (Bytes × β) := []
  deriving DecidableEq, Repr

namespace Table

variable {β : Type}

def empty : Table β := ⟨[]⟩

instance : Inhabited (Table β) := ⟨empty⟩

def findEntry (key : Bytes) : List (Bytes × β) → Option β
  | [] => none
  | (k, v) :: rest => if k = key then some v else findEntry key rest

/-- The value under a key. -/
def find? (table : Table β) (key : Bytes) : Option β := findEntry key table.entries

/-- Puts a key before the first greater one, replacing an equal one. -/
def insertEntry (key : Bytes) (value : β) : List (Bytes × β) → List (Bytes × β)
  | [] => [(key, value)]
  | (k, v) :: rest =>
    if Bytes.precedes key k then (key, value) :: (k, v) :: rest
    else if k = key then (key, value) :: rest
    else (k, v) :: insertEntry key value rest

def insert (table : Table β) (key : Bytes) (value : β) : Table β :=
  ⟨insertEntry key value table.entries⟩

/-- A key that is present keeps its value. -/
def insertIfNew (table : Table β) (key : Bytes) (value : β) : Table β :=
  if (table.find? key).isSome then table else table.insert key value

/-- Later entries of the list win over earlier ones. -/
def ofList (entries : List (Bytes × β)) : Table β :=
  entries.foldl (fun table entry => table.insert entry.1 entry.2) empty

theorem findEntry_insertEntry (key other : Bytes) (value : β) (entries : List (Bytes × β)) :
    findEntry other (insertEntry key value entries) =
      if key = other then some value else findEntry other entries := by
  induction entries with
  | nil => rfl
  | cons entry rest ih =>
    simp only [insertEntry]
    split
    · simp [findEntry]
    · split
      · next h => by_cases ho : key = other <;> simp [findEntry, h, ho]
      · next h =>
        simp only [findEntry, ih]
        by_cases ho : key = other
        · subst ho; simp [h]
        · simp [ho]

/-- A table answers with what was written last under a key. -/
@[simp] theorem find?_insert (table : Table β) (key other : Bytes) (value : β) :
    (table.insert key value).find? other = if key = other then some value else table.find? other :=
  findEntry_insertEntry key other value table.entries

/-! ### Entries -/

theorem mem_of_findEntry {key : Bytes} {value : β} {entries : List (Bytes × β)}
    (h : findEntry key entries = some value) : (key, value) ∈ entries := by
  induction entries with
  | nil => cases h
  | cons entry rest ih =>
    obtain ⟨k, v⟩ := entry
    rw [findEntry] at h
    split at h
    · next hk => simp [← hk, ← Option.some.inj h]
    · exact List.mem_cons_of_mem _ (ih h)

theorem mem_insertEntry {key : Bytes} {value : β} {entries : List (Bytes × β)} {entry : Bytes × β}
    (h : entry ∈ insertEntry key value entries) : entry = (key, value) ∨ entry ∈ entries := by
  induction entries with
  | nil => exact Or.inl (List.mem_singleton.mp h)
  | cons first rest ih =>
    rw [insertEntry] at h
    split at h
    · exact List.mem_cons.mp h
    split at h
    · exact (List.mem_cons.mp h).imp_right (List.mem_cons_of_mem _)
    · rcases List.mem_cons.mp h with rfl | h
      · exact Or.inr List.mem_cons_self
      · exact (ih h).imp_right (List.mem_cons_of_mem _)

theorem mem_of_mem_ofList {entries : List (Bytes × β)} {entry : Bytes × β}
    (h : entry ∈ (ofList entries).entries) : entry ∈ entries := by
  have hfold : ∀ table : Table β, entry ∈ (entries.foldl (fun table entry =>
      table.insert entry.1 entry.2) table).entries → entry ∈ table.entries ∨ entry ∈ entries := by
    clear h
    induction entries with
    | nil => exact fun _ => Or.inl
    | cons first rest ih =>
      intro table h
      rcases ih _ h with h | h
      · rcases mem_insertEntry h with rfl | h
        · exact Or.inr List.mem_cons_self
        · exact Or.inl h
      · exact Or.inr (List.mem_cons_of_mem _ h)
  exact (hfold empty h).resolve_left List.not_mem_nil

/-! ### Order -/

/-- Each key is below those behind it. -/
def Ascending (table : Table β) : Prop := table.entries.Pairwise fun entry other => entry.1 < other.1

theorem ascending_empty : (empty : Table β).Ascending := List.Pairwise.nil

theorem Ascending.insert {table : Table β} (h : table.Ascending) (key : Bytes) (value : β) :
    (table.insert key value).Ascending := by
  obtain ⟨entries⟩ := table
  change (insertEntry key value entries).Pairwise _
  change entries.Pairwise _ at h
  induction h with
  | nil => exact List.pairwise_singleton _ _
  | @cons entry rest hfirst hrest ih =>
    obtain ⟨k, v⟩ := entry
    rw [insertEntry]
    split
    · next hlt =>
      have hlt : key < k := of_decide_eq_true hlt
      refine List.pairwise_cons.mpr ⟨fun other hother => ?_, List.pairwise_cons.mpr ⟨hfirst, hrest⟩⟩
      rcases List.mem_cons.mp hother with rfl | hother
      · exact hlt
      · exact Std.lt_trans hlt (hfirst other hother)
    next hnot =>
    split
    · next heq => exact List.pairwise_cons.mpr ⟨fun other hother => heq ▸ hfirst other hother, hrest⟩
    · next hne =>
      have hge : k ≤ key := Std.not_lt.mp fun hlt => hnot (decide_eq_true hlt)
      refine List.pairwise_cons.mpr ⟨fun other hother => ?_, ih⟩
      rcases mem_insertEntry hother with rfl | hother
      · exact Std.lt_of_le_of_ne hge hne
      · exact hfirst other hother

theorem Ascending.findEntry_eq {table : Table β} (h : table.Ascending) {entry : Bytes × β}
    (hentry : entry ∈ table.entries) : table.find? entry.1 = some entry.2 := by
  obtain ⟨entries⟩ := table
  change findEntry entry.1 entries = _
  change entries.Pairwise _ at h
  induction h with
  | nil => cases hentry
  | @cons first rest hfirst _ ih =>
    obtain ⟨k, v⟩ := first
    rw [findEntry]
    rcases List.mem_cons.mp hentry with rfl | hentry
    · exact if_pos rfl
    · rw [if_neg, ih hentry]
      exact Std.ne_of_lt (hfirst entry hentry)

theorem insertEntry_of_least {key : Bytes} {entries : List (Bytes × β)}
    (h : ∀ entry ∈ entries, key < entry.1) (value : β) :
    insertEntry key value entries = (key, value) :: entries := by
  cases entries with
  | nil => rfl
  | cons entry rest => exact if_pos (decide_eq_true (h entry List.mem_cons_self))

theorem insertEntry_of_greatest {key : Bytes} {entries : List (Bytes × β)}
    (h : ∀ entry ∈ entries, entry.1 < key) (value : β) :
    insertEntry key value entries = entries ++ [(key, value)] := by
  induction entries with
  | nil => rfl
  | cons entry rest ih =>
    have hlt := h entry List.mem_cons_self
    rw [insertEntry, if_neg, if_neg (Std.ne_of_lt hlt), ih fun other hother => h other (List.mem_cons_of_mem _ hother)]
    · rfl
    · exact fun hgt => Std.not_gt_of_lt hlt (of_decide_eq_true hgt)

/-- Entries in ascending order make the table that lists them. -/
theorem ofList_entries {table : Table β} (h : table.Ascending) : ofList table.entries = table := by
  have hfold : ∀ front rest : List (Bytes × β),
      (front ++ rest).Pairwise (fun entry other => entry.1 < other.1) →
      rest.foldl (fun table entry => table.insert entry.1 entry.2) ⟨front⟩ = (⟨front ++ rest⟩ : Table β) := by
    intro front rest h
    induction rest generalizing front with
    | nil => rw [List.append_nil]; rfl
    | cons entry rest ih =>
      have hbelow : ∀ other ∈ front, other.1 < entry.1 := fun other hother =>
        (List.pairwise_append.mp h).2.2 other hother entry List.mem_cons_self
      rw [List.foldl_cons, insert, insertEntry_of_greatest hbelow, ih _ (by simpa using h), List.append_assoc]
      rfl
  exact hfold [] table.entries h

end Table

/-- A set of names, listed in ascending order. -/
abbrev Names := List Bytes

namespace Names

/-- Adds a name before the first greater one unless it is there. -/
def insert (name : Bytes) : Names → Names
  | [] => [name]
  | first :: rest =>
    if Bytes.precedes name first then name :: first :: rest
    else if first = name then first :: rest
    else first :: insert name rest

def ofList (names : List Bytes) : Names := names.foldl (fun set name => insert name set) []

end Names

end Chronicle
