import Chronicle.Disk.Outside
import Mathlib.Logic.Basic

/-!
Paths do not look into files.

Two disks with the same directories, links and files, whose files differ in what they hold at most,
lead every path to the same place. Adding to a file is such a change, so behind a path there is the
same file as before, with the new content.
-/

namespace Chronicle.Disk

/-- The same kind of entry, a file with another content. -/
def mapEntry (f : Bytes → Bytes) : Entry → Entry
  | .file content => .file (f content)
  | entry => entry

/-- The same place, a file with another content. -/
def mapPlace (f : Key → Bytes → Bytes) : Place → Place
  | .present (.inside key) entry => .present (.inside key) (mapEntry (f key) entry)
  | place => place

/-- The second disk has the entries of the first one, its files with other contents. -/
def Rewritten (f : Key → Bytes → Bytes) (disk disk' : Disk) : Prop :=
  ∀ key, disk'.find? key = (disk.find? key).map (mapEntry (f key))

variable {f : Key → Bytes → Bytes} {disk disk' : Disk}

lemma mapEntry_eq_directory {g : Bytes → Bytes} {entry : Entry} :
    mapEntry g entry = .directory ↔ entry = .directory := by
  cases entry <;> simp [mapEntry]

lemma Rewritten.standing_directory (h : Rewritten f disk disk') (here : Standing) :
    disk'.standingEntry here = some .directory ↔ disk.standingEntry here = some .directory := by
  cases here with
  | detached parent => rfl
  | inside key =>
    simp only [standingEntry, h key, Option.map_eq_some_iff]
    constructor
    · rintro ⟨entry, hfind, hentry⟩
      rw [hfind, mapEntry_eq_directory.mp hentry]
    · exact fun hfind => ⟨.directory, hfind, rfl⟩

lemma Rewritten.walkNames (h : Rewritten f disk disk') (follow : Bool)
    {onLink onLink' : Key → Bytes → List Bytes → Except Errno Place}
    (hlink : ∀ key target rest, onLink' key target rest = (onLink key target rest).map (mapPlace f))
    (here : Standing) (names : List Bytes) :
    disk'.walkNames follow onLink' here names =
      (disk.walkNames follow onLink here names).map (mapPlace f) := by
  induction names generalizing here with
  | nil =>
    cases here with
    | detached parent => rfl
    | inside key =>
      simp only [Disk.walkNames, standingEntry, h key]
      rcases disk.find? key with _ | entry <;> rfl
  | cons name rest ih =>
    -- Both walks ask the same questions in turn; only what a name stands for may differ.
    simp only [Disk.walkNames, ne_eq, h.standing_directory here, ih,
      apply_ite (Except.map (mapPlace f))]
    refine ite_congr rfl (fun _ => rfl) fun _ => ite_congr rfl (fun _ => rfl) fun _ =>
      ite_congr rfl (fun _ => rfl) fun _ => ite_congr rfl (fun _ => rfl) fun _ => ?_
    cases here with
    | detached parent => rfl
    | inside key =>
      simp only [h (key ++ [name])]
      rcases disk.find? (key ++ [name]) with _ | entry
      · simp only [Option.map_none]
        split <;> rfl
      · cases entry with
        | link target =>
          simp only [Option.map_some, mapEntry, hlink, apply_ite (Except.map (mapPlace f))]
          rfl
        | _ => rfl

lemma Rewritten.resolveNames (h : Rewritten f disk disk') (follow : Bool) (links : Nat)
    (here : Standing) (names : List Bytes) :
    disk'.resolveNames follow links here names =
      (disk.resolveNames follow links here names).map (mapPlace f) := by
  induction links generalizing here names with
  | zero =>
    refine h.walkNames follow (fun _ _ _ => ?_) here names
    rfl
  | succ links ih => exact h.walkNames follow (fun _ _ _ => ih _ _) here names

/-- **A path leads to the same place**, whatever the files hold. -/
theorem Rewritten.resolve (h : Rewritten f disk disk') (here : Standing) (follow : Bool)
    (path : Path) :
    disk'.resolve here follow path = (disk.resolve here follow path).map (mapPlace f) := by
  unfold Disk.resolve
  dsimp only
  split
  · rfl
  split
  · rfl
  exact h.resolveNames follow mostLinks _ _

/-! ### Where a path leads is on the disk -/

/-- What is said to be at a place is there. -/
def Place.IsOn (disk : Disk) : Place → Prop
  | .present here entry => disk.standingEntry here = some entry
  | .absent key _ => disk.find? key = none

lemma walkNames_isOn (follow : Bool) {onLink : Key → Bytes → List Bytes → Except Errno Place}
    (hlink : ∀ key target rest place, onLink key target rest = .ok place → place.IsOn disk)
    {here : Standing} {names : List Bytes} {place : Place}
    (h : disk.walkNames follow onLink here names = .ok place) : place.IsOn disk := by
  induction names generalizing here with
  | nil =>
    rcases hentry : disk.standingEntry here with _ | entry
    · simp [Disk.walkNames, hentry] at h
    · simp only [Disk.walkNames, hentry, Except.ok.injEq] at h
      subst h
      exact hentry
  | cons name rest ih =>
    simp only [Disk.walkNames] at h
    split at h
    · cases h
    split at h
    · exact ih h
    split at h
    · exact ih h
    split at h
    · cases h
    -- Only a name of its own can lead to an entry.
    cases here with
    | detached parent => cases h
    | inside key =>
      rcases hfind : disk.find? (key ++ [name]) with _ | entry
      · simp only [hfind] at h
        split at h
        · cases h
          exact hfind
        · cases h
      · cases entry with
        | link target =>
          simp only [hfind] at h
          split at h
          · cases h
            exact hfind
          · exact hlink key target rest place h
        | _ =>
          simp only [hfind] at h
          exact ih h

lemma resolveNames_isOn (follow : Bool) {links : Nat} {here : Standing} {names : List Bytes}
    {place : Place} (h : disk.resolveNames follow links here names = .ok place) :
    place.IsOn disk := by
  induction links generalizing here names place with
  | zero =>
    refine walkNames_isOn follow (fun _ _ _ _ hlink => ?_) h
    cases hlink
  | succ links ih =>
    refine walkNames_isOn follow (fun _ _ _ _ hlink => ?_) h
    exact ih hlink

lemma resolve_isOn {here : Standing} {follow : Bool} {path : Path} {place : Place}
    (h : disk.resolve here follow path = .ok place) : place.IsOn disk := by
  unfold Disk.resolve at h
  dsimp only at h
  split at h
  · cases h
  split at h
  · cases h
  exact resolveNames_isOn follow h

/-! ### Files that grow -/

/-- A path leads to a file with this content. -/
def Holds (disk : Disk) (here : Standing) (path : Path) (content : Bytes) : Prop :=
  ∃ key, disk.resolve here true path = .ok (.present (.inside key) (.file content))

lemma rewritten_set {key : Key} {old : Bytes} (h : disk.find? key = some (.file old))
    (new : Bytes) :
    Rewritten (fun k content => if k = key then new else content) disk
      (disk.set key (.file new)) := by
  have hkey : key ≠ [] := by
    rintro rfl
    rw [find?_nil] at h
    cases h
  intro other
  rw [find?_set disk hkey]
  by_cases hother : key = other
  · subst hother
    simp [h, mapEntry]
  · rw [if_neg hother]
    have hne : other ≠ key := fun h' => hother h'.symm
    rcases disk.find? other with _ | entry
    · rfl
    · cases entry <;> simp [mapEntry, hne]

/-- **Adding to a file** leaves a file with the old content and the new data behind the path. -/
theorem Holds.extend {here : Standing} {path : Path} {content : Bytes}
    (h : disk.Holds here path content) (data : Bytes) :
    (disk.extend here path data).Holds here path (content ++ data) := by
  obtain ⟨key, hkey⟩ := h
  have hset : disk.extend here path data = disk.set key (.file (content ++ data)) := by
    simp [Disk.extend, Disk.append, writeBehind, hkey, grown]
  refine ⟨key, ?_⟩
  rw [hset, (rewritten_set (resolve_isOn hkey) (content ++ data)).resolve, hkey]
  simp [Except.map, mapPlace, mapEntry]

end Chronicle.Disk
