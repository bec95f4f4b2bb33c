import Chronicle.Proofs.Disk.Tree
import Mathlib.Data.List.Induction
import Mathlib.Data.List.Nodup
import Mathlib.Data.List.Perm.Subperm

/-!
A walk finds every entry once.

On a disk that is a tree, what is below a directory is what the directory lists together with what is below
that. A walk goes through it in this way, and since no name is listed twice it comes upon each entry below
the directory one time. It goes as many levels deep as there are entries, which is deep enough: all that
is above an entry is listed too.
-/

namespace Chronicle.Disk

variable {disk : Disk} {here : Standing} {path : Path} {key : Key} {entry : Key × Entry}

/-- The path by which a walk that started at a directory comes upon an entry below it. -/
def pathBelow (path : Path) (key : Key) (entry : Key × Entry) : Path :=
  (entry.1.drop key.length).foldl Path.join path

/-- What a walk that started at a directory says about an entry below it. -/
def foundBelow (disk : Disk) (here : Standing) (path : Path) (key : Key) (entry : Key × Entry) : Found :=
  disk.found here (pathBelow path key entry) entry.2

lemma found_path (disk : Disk) (here : Standing) (path : Path) (entry : Entry) :
    (disk.found here path entry).path = path := by
  cases entry <;> rfl

lemma mem_below : entry ∈ disk.below key ↔
    entry ∈ disk.entries ∧ key <+: entry.1 ∧ key.length < entry.1.length := by
  rw [below, List.mem_filter, Bool.and_eq_true, List.isPrefixOf_iff_prefix, decide_eq_true_iff]

/-! ### Levels -/

namespace WellFormed

lemma entries_nodup (h : disk.WellFormed) : disk.entries.Nodup :=
  List.Nodup.of_map _ h.keys_nodup

lemma directory_above (h : disk.WellFormed) {rest : List Bytes} {value : Entry} (hrest : rest ≠ [])
    (hfind : disk.find? (key ++ rest) = some value) : disk.find? key = some .directory := by
  induction rest using List.reverseRecOn generalizing value with
  | nil => exact absurd rfl hrest
  | append_singleton front last ih =>
    have hparent := h.parent hfind (by simp)
    rw [← List.append_assoc, List.dropLast_concat] at hparent
    by_cases hfront : front = []
    · rwa [hfront, List.append_nil] at hparent
    · exact ih hfront hparent

/-- No entry is nested deeper than there are entries. -/
lemma length_le (h : disk.WellFormed) (hmem : entry ∈ disk.entries) :
    entry.1.length ≤ disk.entries.length := by
  -- The beginnings of the key are as many keys.
  let above := (List.range entry.1.length).map fun i => entry.1.take (i + 1)
  have hnodup : above.Nodup := by
    refine List.Nodup.map_on (fun i hi j hj heq => ?_) List.nodup_range
    have hlength := congrArg List.length heq
    rw [List.length_take, List.length_take] at hlength
    rw [List.mem_range] at hi hj
    omega
  have hsubset : above ⊆ disk.entries.map (·.1) := by
    intro beginning hbeginning
    obtain ⟨i, hi, rfl⟩ := List.mem_map.mp hbeginning
    rw [List.mem_range] at hi
    have hfind := h.find?_of_mem hmem
    by_cases hwhole : entry.1.drop (i + 1) = []
    · rw [List.take_of_length_le (List.drop_eq_nil_iff.mp hwhole)]
      exact List.mem_map.mpr ⟨entry, hmem, rfl⟩
    · rw [← List.take_append_drop (i + 1) entry.1] at hfind
      have hne : entry.1.take (i + 1) ≠ [] := by
        intro hnil
        have hzero := congrArg List.length hnil
        rw [List.length_take, List.length_nil] at hzero
        omega
      exact List.mem_map.mpr ⟨_, mem_of_find? (h.directory_above hwhole hfind) hne, rfl⟩
  have hlength := (hnodup.subperm hsubset).length_le
  simpa [above] using hlength

lemma below_eq_nil (h : disk.WellFormed) (hkey : disk.find? key ≠ some .directory) :
    disk.below key = [] := by
  rw [List.eq_nil_iff_forall_not_mem]
  intro entry hentry
  obtain ⟨hmem, ⟨rest, heq⟩, hlength⟩ := mem_below.mp hentry
  have hrest : rest ≠ [] := by
    rintro rfl
    rw [← heq, List.append_nil] at hlength
    omega
  exact hkey (h.directory_above hrest (heq ▸ h.find?_of_mem hmem))

lemma children_pairwise (h : disk.WellFormed) (key : Key) :
    (disk.children key).Pairwise fun a b => a.1 ≠ b.1 := by
  have hkeys : disk.entries.Pairwise fun a b => a.1 ≠ b.1 := List.pairwise_map.mp h.keys_nodup
  refine List.pairwise_filterMap.mpr (hkeys.imp fun {a b} hne child hchild other hother heq => hne ?_)
  rw [congrArg Prod.fst (key_of_child hchild), congrArg Prod.fst (key_of_child hother), heq]

lemma levels_nodup (h : disk.WellFormed) (key : Key) :
    ((disk.children key).flatMap fun child =>
      (key ++ [child.1], child.2) :: disk.below (key ++ [child.1])).Nodup := by
  refine List.nodup_flatMap.mpr ⟨fun child _ => ?_, ?_⟩
  · refine List.nodup_cons.mpr ⟨fun hmem => ?_, h.entries_nodup.filter _⟩
    exact Nat.lt_irrefl _ (mem_below.mp hmem).2.2
  · -- Whatever is in the part of a child has the name of the child behind the key of the directory.
    refine (h.children_pairwise key).imp fun {a b} hne entry hfirst hsecond => hne ?_
    have hbegin : ∀ child : Bytes × Entry,
        entry ∈ (key ++ [child.1], child.2) :: disk.below (key ++ [child.1]) →
          key ++ [child.1] <+: entry.1 := by
      intro child hentry
      rcases List.mem_cons.mp hentry with rfl | hbelow
      · exact List.prefix_rfl
      · exact (mem_below.mp hbelow).2.1
    obtain ⟨rest, hrest⟩ := hbegin a hfirst
    obtain ⟨rest', hrest'⟩ := hbegin b hsecond
    have heq := hrest.trans hrest'.symm
    simp only [List.append_assoc, List.singleton_append, List.append_cancel_left_eq,
      List.cons.injEq] at heq
    exact heq.1

/-- **One level**: what is below a directory is what it lists, and what is below that. -/
theorem below_perm (h : disk.WellFormed) (key : Key) :
    (disk.below key).Perm
      ((disk.children key).flatMap fun child =>
        (key ++ [child.1], child.2) :: disk.below (key ++ [child.1])) := by
  refine (List.perm_ext_iff_of_nodup (h.entries_nodup.filter _) (h.levels_nodup key)).mpr fun entry => ?_
  rw [List.mem_flatMap]
  constructor
  · intro hbelow
    obtain ⟨hmem, ⟨rest, heq⟩, hlength⟩ := mem_below.mp hbelow
    -- The first name below the directory is that of a child, which is the entry or a directory above it.
    cases rest with
    | nil =>
      rw [← heq, List.append_nil] at hlength
      omega
    | cons name rest =>
      have hfind := h.find?_of_mem hmem
      rw [List.append_cons] at heq
      by_cases hrest : rest = []
      · rw [hrest, List.append_nil] at heq
        refine ⟨(name, entry.2), mem_children.mpr (heq ▸ hmem), ?_⟩
        rw [heq]
        exact List.mem_cons_self
      · rw [← heq] at hfind
        have hchild := mem_of_find? (h.directory_above hrest hfind) (by simp)
        refine ⟨(name, .directory), mem_children.mpr hchild, List.mem_cons_of_mem _ (mem_below.mpr ?_)⟩
        have hpos := List.length_pos_iff.mpr hrest
        refine ⟨hmem, ⟨rest, heq⟩, ?_⟩
        rw [← heq]
        simpa using hpos
  · rintro ⟨child, hchild, hentry⟩
    rcases List.mem_cons.mp hentry with rfl | hbelow
    · exact mem_below.mpr ⟨mem_children.mp hchild, List.prefix_append _ _, by simp⟩
    · obtain ⟨hmem, habove, hlength⟩ := mem_below.mp hbelow
      refine mem_below.mpr ⟨hmem, (List.prefix_append _ _).trans habove, ?_⟩
      rw [List.length_append] at hlength
      omega

end WellFormed

/-! ### Walks -/

lemma pathBelow_child {child : Bytes × Entry} (hentry : entry ∈ disk.below (key ++ [child.1])) :
    pathBelow path key entry = pathBelow (path.join child.1) (key ++ [child.1]) entry := by
  obtain ⟨-, ⟨rest, heq⟩, -⟩ := mem_below.mp hentry
  simp [pathBelow, ← heq]

/-- **A walk comes upon each entry once.** -/
theorem WellFormed.walkFrom_perm (h : disk.WellFormed) (here : Standing) {depth : Nat}
    (hdepth : ∀ entry ∈ disk.entries, entry.1.length ≤ key.length + depth) (path : Path) :
    (disk.walkFrom here depth key path).Perm ((disk.below key).map (disk.foundBelow here path key)) := by
  induction depth generalizing key path with
  | zero =>
    have hnone : disk.below key = [] := by
      rw [List.eq_nil_iff_forall_not_mem]
      intro entry hentry
      obtain ⟨hmem, -, hlength⟩ := mem_below.mp hentry
      exact absurd hlength (Nat.not_lt.mpr (hdepth entry hmem))
    rw [hnone]
    exact .refl _
  | succ depth ih =>
    refine List.Perm.trans ?_ ((h.below_perm key).map _).symm
    rw [walkFrom, List.map_flatMap]
    refine List.Perm.flatMap_left _ fun child hchild => ?_
    have hfirst : disk.foundBelow here path key (key ++ [child.1], child.2) =
        disk.found here (path.join child.1) child.2 := by
      simp [foundBelow, pathBelow]
    have hrest : (disk.below (key ++ [child.1])).map (disk.foundBelow here path key) =
        (disk.below (key ++ [child.1])).map
          (disk.foundBelow here (path.join child.1) (key ++ [child.1])) := by
      refine List.map_congr_left fun entry hentry => ?_
      rw [foundBelow, pathBelow_child hentry, foundBelow]
    rw [List.map_cons, hfirst, hrest]
    refine .cons _ ?_
    have hfind := h.find?_of_mem (mem_children.mp hchild)
    split
    · refine ih (fun entry hentry => ?_) _
      have hlevel := hdepth entry hentry
      rw [List.length_append, List.length_singleton]
      omega
    · next hdirectory =>
      rw [h.below_eq_nil (by rw [hfind]; simpa using hdirectory)]
      exact .refl _

/-- **A walk through all levels** comes upon each entry below a directory once. -/
theorem WellFormed.walk_perm (h : disk.WellFormed)
    (hdirectory : disk.resolve here true path = .ok (.present (.inside key) .directory)) :
    ∃ found, disk.walk here path = .ok found ∧
      found.Perm ((disk.below key).map (disk.foundBelow here path key)) := by
  refine ⟨disk.walkFrom here disk.entries.length key path, by rw [walk, hdirectory], ?_⟩
  exact h.walkFrom_perm here (fun entry hentry => Nat.le_add_left_of_le (h.length_le hentry)) path

end Chronicle.Disk
