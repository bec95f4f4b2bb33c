import Chronicle.Proofs.Disk.Joined
import Chronicle.Proofs.Disk.Walk

/-!
Absolute paths without links.

The path of an entry is the names from the root to it. On a disk where names are names, the path above it is
that of the directory it lies in, the paths of two entries differ, and looking the path up leads back to the
entry.
-/

namespace Chronicle.Disk

variable {disk : Disk} {key : Key} {name : Bytes}

/-- A name that an entry on a disk can have. -/
structure IsEntryName (name : Bytes) : Prop extends IsName name where
  short : name.length ≤ longestName

/-- A tree in which entries have names. -/
structure Named (disk : Disk) : Prop extends disk.WellFormed where
  names : ∀ entry ∈ disk.entries, ∀ name ∈ entry.1, IsEntryName name

lemma Named.of_find? (h : disk.Named) {entry : Entry} (hfind : disk.find? key = some entry) :
    ∀ name ∈ key, IsEntryName name := by
  by_cases hkey : key = []
  · rw [hkey]
    exact List.forall_mem_nil _
  · exact h.names _ (mem_of_find? hfind hkey)

/-- A key that a path spells: none of its names has a slash in it or stands for a way up. -/
def Spelled (key : Key) : Prop := ∀ name ∈ key, IsName name

lemma Named.spelled (h : disk.Named) {entry : Entry} (hfind : disk.find? key = some entry) : Spelled key :=
  fun name hmem => (h.of_find? hfind name hmem).toIsName

lemma spelled_concat : Spelled (key ++ [name]) ↔ Spelled key ∧ IsName name := by
  simp [Spelled, or_imp, forall_and]

lemma Spelled.dropLast (h : Spelled key) : Spelled key.dropLast :=
  fun name hmem => h name (List.dropLast_subset _ hmem)

/-! ### Texts -/

lemma pathOf_concat (key : Key) (name : Bytes) :
    pathOf (key ++ [name]) = ⟨Bytes.joinedAfter [Bytes.slash] key ++ Bytes.slash :: name⟩ := by
  have hempty : (key ++ [name]).isEmpty = false := by simp
  rw [pathOf, hempty]
  simp [Bytes.joinedAfter]

lemma pathOf_text (hne : key ≠ []) : (pathOf key).text = Bytes.joinedAfter [Bytes.slash] key := by
  simp [pathOf, hne]

lemma pathOf_unended (hkey : Spelled key) (hne : key ≠ []) : (pathOf key).Unended := by
  obtain ⟨front, last, rfl⟩ := List.eq_nil_or_concat key |>.resolve_left hne
  rw [List.concat_eq_append] at hkey ⊢
  have hlast : IsName last := (spelled_concat.mp hkey).2
  rw [pathOf_concat]
  refine ⟨by simp, fun hslash => ?_⟩
  rw [List.getLast?_append_cons, List.getLast?_cons_of_ne_nil hlast.ne_nil] at hslash
  exact hlast.no_slash (List.mem_of_getLast? hslash)

lemma pathOf_join (hkey : Spelled key) (hname : IsName name) :
    (pathOf key).join name = pathOf (key ++ [name]) := by
  by_cases hne : key = []
  · rw [hne]
    simp [pathOf, Path.join, hname.head?, Path.isEmpty, Bytes.joinedAfter]
  · rw [(pathOf_unended hkey hne).join_eq hname, pathOf_concat, pathOf_text hne]

lemma pathOf_parent (hkey : Spelled key) (hname : IsName name) :
    (pathOf (key ++ [name])).parent = pathOf key := by
  by_cases hne : key = []
  · have hroot : pathOf (key ++ [name]) = ⟨[Bytes.slash] ++ name⟩ := by
      rw [hne, pathOf_concat]
      rfl
    rw [hroot, parent_of_slash hname rfl, hne]
    rfl
  · rw [← pathOf_join hkey hname, (pathOf_unended hkey hne).parent_join hname]

lemma pathOf_fileName (hkey : Spelled key) (hname : IsName name) :
    (pathOf (key ++ [name])).fileName = name := by
  rw [← pathOf_join hkey hname, hname.fileName_join]

lemma pathOf_parent_dropLast (hkey : Spelled key) :
    (pathOf key).parent = pathOf key.dropLast := by
  rcases List.eq_nil_or_concat key with rfl | ⟨front, last, rfl⟩
  · rfl
  · rw [List.concat_eq_append, List.dropLast_concat]
    rw [List.concat_eq_append] at hkey
    exact pathOf_parent (spelled_concat.mp hkey).1 (spelled_concat.mp hkey).2

lemma pathOf_injective {other : Key} (hkey : Spelled key)
    (hother : Spelled other) (hne : key ≠ []) (hne' : other ≠ [])
    (h : pathOf key = pathOf other) : key = other := by
  refine Bytes.joinedAfter_injective (fun name hmem => (hkey name hmem).no_slash)
    (fun name hmem => (hother name hmem).no_slash) ?_
  rw [← pathOf_text hne, ← pathOf_text hne', h]

lemma pathOf_no_null (hkey : Spelled key) : (0 : UInt8) ∉ (pathOf key).text := by
  unfold pathOf
  split
  · decide
  · intro hmem
    obtain ⟨name, hname, hmem⟩ := List.mem_flatMap.mp hmem
    rcases List.mem_append.mp hmem with hslash | hmem
    · exact absurd hslash (by decide)
    · exact (hkey name hname).no_null hmem

/-! ### Looking a path up -/

lemma IsEntryName.plain (h : IsEntryName name) : Plain name where
  not_dot := by simp [h.ne_nil, h.ne_dot]
  not_up := by simpa using h.ne_up
  short := Nat.not_lt.mpr h.short

lemma walkNames_key {follow : Bool} {onLink : Key → Bytes → List Bytes → Except Errno Place}
    (h : disk.Named) {content : Bytes} {front behind : Key}
    (hfind : disk.find? (front ++ behind) = some (.file content)) :
    disk.walkNames follow onLink (.inside front) behind =
      .ok (.present (.inside (front ++ behind)) (.file content)) := by
  induction behind generalizing front with
  | nil =>
    rw [List.append_nil] at hfind ⊢
    simp [walkNames, standingEntry, hfind]
  | cons name rest ih =>
    have hname : IsEntryName name := h.of_find? hfind name (by simp)
    have hparent : disk.find? front = some .directory :=
      h.directory_above (List.cons_ne_nil name rest) hfind
    have hsplit : front ++ name :: rest = front ++ [name] ++ rest := List.append_cons ..
    rw [hsplit] at hfind ⊢
    rw [walkNames_name hparent hname.plain]
    by_cases hrest : rest = []
    · subst hrest
      rw [List.append_nil] at hfind ⊢
      simp [hfind, walkNames, standingEntry]
    · rw [h.directory_above hrest hfind]
      exact ih hfind

/-- **The path of a file leads to it**, unless the path is too long. -/
theorem Named.resolve_pathOf (h : disk.Named) {content : Bytes}
    (hfind : disk.find? key = some (.file content)) (hlong : (pathOf key).text.length ≤ longestPath)
    (here : Standing) (follow : Bool) :
    disk.resolve here follow (pathOf key) = .ok (.present (.inside key) (.file content)) := by
  have hkey := h.spelled hfind
  have hne : key ≠ [] := by
    rintro rfl
    cases hfind
  have hnull := pathOf_no_null hkey
  have hempty : ¬ (pathOf key).text.isEmpty = true := by
    rw [List.isEmpty_iff]
    exact (pathOf_unended hkey hne).ne_nil
  have hstart : startOf here (pathOf key).text = .inside [] := by
    rw [pathOf_text hne]
    cases key with
    | nil => exact absurd rfl hne
    | cons name rest => rfl
  have hnames : Bytes.splitOn Bytes.slash (pathOf key).text = [] :: key := by
    rw [pathOf_text hne, ← List.nil_append (Bytes.joinedAfter _ _)]
    exact Bytes.splitOn_append_joinedAfter List.not_mem_nil
      fun name hmem => (hkey name hmem).no_slash
  have hwalk : ∀ onLink : Key → Bytes → List Bytes → Except Errno Place,
      disk.walkNames follow onLink (.inside []) ([] :: key) = .ok (.present (.inside key) (.file content)) := by
    intro onLink
    have hbelow : disk.find? ([] ++ key) = some (.file content) := hfind
    exact walkNames_key h hbelow
  rw [resolve, systemText_eq hnull, if_neg hempty, if_neg (Nat.not_lt.mpr hlong), hstart, hnames]
  exact hwalk _

end Chronicle.Disk
