import Chronicle.Proofs.Merkle.Levels
import Mathlib.Data.List.Infix
import Mathlib.Data.Set.Function

/-!
What the root of a hash tree says about its leaves.

An odd last node is joined with itself, so a level and the same level with its last node repeated give
the same tree above them. The root therefore cannot stand for the leaves exactly, only for the leaves
up to repetitions at the end: of two lists with one root, one starts with the other and has no further
elements. That is carried from the root downwards, one level at a time, as long as no two pairs are
joined into the same node. Trees of different height are ruled out where no node is a leaf.
-/

namespace Chronicle.Merkle

variable {α β : Type} {node : α → α → α}

/-! ### Lists that differ in repetitions at the end -/

/-- One list starts with the other, and both have the same elements. -/
structure Alike (level level' : List α) : Prop where
  isPrefix : level <+: level' ∨ level' <+: level
  mem_iff : ∀ x, x ∈ level ↔ x ∈ level'

namespace Alike

variable {level level' : List α}

lemma refl (level : List α) : Alike level level :=
  ⟨Or.inl (List.prefix_refl level), fun _ => Iff.rfl⟩

lemma symm (h : Alike level level') : Alike level' level where
  isPrefix := h.isPrefix.symm
  mem_iff x := (h.mem_iff x).symm

lemma eq_of_length_eq (h : Alike level level') (hlength : level.length = level'.length) :
    level = level' := by
  rcases h.isPrefix with hbegin | hbegin
  · exact hbegin.eq_of_length hlength
  · exact (hbegin.eq_of_length hlength.symm).symm

lemma eq_of_isPrefix (h : Alike level level') (hbegin : level <+: level') (hnodup : level'.Nodup) :
    level = level' := by
  obtain ⟨more, rfl⟩ := hbegin
  rcases more with _ | ⟨x, more⟩
  · rw [List.append_nil]
  · have hmem : x ∈ level := (h.mem_iff x).mpr (by simp)
    exact absurd rfl ((List.nodup_append.mp hnodup).2.2 x hmem x List.mem_cons_self)

lemma eq_of_nodup (h : Alike level level') (hnodup : level.Nodup) (hnodup' : level'.Nodup) :
    level = level' := by
  rcases h.isPrefix with hbegin | hbegin
  · exact h.eq_of_isPrefix hbegin hnodup'
  · exact (h.symm.eq_of_isPrefix hbegin hnodup).symm

end Alike

lemma isPrefix_of_map {f : α → β} {s : Set α} (hinj : Set.InjOn f s) {level level' : List α}
    (hmem : ∀ x ∈ level, x ∈ s) (hmem' : ∀ x ∈ level', x ∈ s)
    (h : level.map f <+: level'.map f) : level <+: level' := by
  induction level generalizing level' with
  | nil => exact List.nil_prefix
  | cons x rest ih =>
    rcases level' with _ | ⟨x', rest'⟩
    · simp at h
    · rw [List.map_cons, List.map_cons, List.cons_prefix_cons] at h
      obtain ⟨hhead, htail⟩ := h
      have hx : x = x' := hinj (hmem x List.mem_cons_self) (hmem' x' List.mem_cons_self) hhead
      have hrest : rest <+: rest' := ih (fun y hy => hmem y (List.mem_cons_of_mem _ hy))
        (fun y hy => hmem' y (List.mem_cons_of_mem _ hy)) htail
      rw [hx, List.cons_prefix_cons]
      exact ⟨rfl, hrest⟩

lemma Alike.of_map {f : α → β} {s : Set α} (hinj : Set.InjOn f s) {level level' : List α}
    (hmem : ∀ x ∈ level, x ∈ s) (hmem' : ∀ x ∈ level', x ∈ s)
    (h : Alike (level.map f) (level'.map f)) : Alike level level' where
  isPrefix := by
    rcases h.isPrefix with hbegin | hbegin
    · exact Or.inl (isPrefix_of_map hinj hmem hmem' hbegin)
    · exact Or.inr (isPrefix_of_map hinj hmem' hmem hbegin)
  mem_iff x := by
    constructor
    · intro hx
      obtain ⟨x', hx', heq⟩ := List.mem_map.mp ((h.mem_iff (f x)).mp (List.mem_map_of_mem hx))
      rwa [← hinj (hmem' x' hx') (hmem x hx) heq]
    · intro hx
      obtain ⟨x', hx', heq⟩ := List.mem_map.mp ((h.mem_iff (f x)).mpr (List.mem_map_of_mem hx))
      rwa [← hinj (hmem x' hx') (hmem' x hx) heq]

/-! ### One level down -/

/-- A level with an odd last node repeated. -/
def evened (level : List α) : List α := (pairs level).flatMap fun pair => [pair.1, pair.2]

lemma isPrefix_evened (level : List α) : level <+: evened level := by
  induction level using pairs.induct with
  | case1 left right rest ih =>
    exact List.cons_prefix_cons.mpr ⟨rfl, List.cons_prefix_cons.mpr ⟨rfl, ih⟩⟩
  | case2 left => exact List.cons_prefix_cons.mpr ⟨rfl, List.nil_prefix⟩
  | case3 => exact List.nil_prefix

lemma pairs_evened (level : List α) : pairs (evened level) = pairs level := by
  induction level using pairs.induct with
  | case1 left right rest ih => exact congrArg ((left, right) :: ·) ih
  | case2 left => rfl
  | case3 => rfl

lemma map_evened (f : α → β) (level : List α) : (evened level).map f = evened (level.map f) := by
  induction level using pairs.induct with
  | case1 left right rest ih => exact congrArg (f left :: f right :: ·) ih
  | case2 left => rfl
  | case3 => rfl

/-- **Repeating an odd last node does not change the root.** -/
theorem root?_evened (node : α → α → α) {leaves : List α} (h : 1 < leaves.length) :
    root? node (evened leaves) = root? node leaves := by
  have hevened : 1 < (evened leaves).length := lt_of_lt_of_le h (isPrefix_evened leaves).length_le
  rw [root?_pairUp h, root?_pairUp hevened, pairUp_eq_map, pairUp_eq_map, pairs_evened]

example : evened [1, 2, 3] = [1, 2, 3, 3] := rfl

lemma Alike.of_pairs {level level' : List α} (h : Alike (pairs level) (pairs level')) :
    Alike level level' := by
  -- both levels and what they start with are beginnings of the longer one of the two made even
  have hevened : evened level <+: evened level' ∨ evened level' <+: evened level := by
    rcases h.isPrefix with hbegin | hbegin
    · exact Or.inl (hbegin.flatMap _)
    · exact Or.inr (hbegin.flatMap _)
  constructor
  · rcases hevened with hbegin | hbegin
    · exact List.prefix_or_prefix_of_prefix ((isPrefix_evened level).trans hbegin)
        (isPrefix_evened level')
    · exact List.prefix_or_prefix_of_prefix (isPrefix_evened level)
        ((isPrefix_evened level').trans hbegin)
  · intro x
    rw [mem_iff_exists_pair, mem_iff_exists_pair]
    simp only [h.mem_iff]

lemma Alike.of_pairUp {s : Set (α × α)} (hinj : Set.InjOn (fun pair => node pair.1 pair.2) s)
    {level level' : List α} (hpairs : ∀ pair ∈ pairs level, pair ∈ s)
    (hpairs' : ∀ pair ∈ pairs level', pair ∈ s)
    (h : Alike (pairUp node level) (pairUp node level')) : Alike level level' := by
  rw [pairUp_eq_map, pairUp_eq_map] at h
  exact (Alike.of_map hinj hpairs hpairs' h).of_pairs

/-! ### From the root down to the leaves -/

section

variable {leaves leaves' : List α} {s : Set (α × α)}

/-- From alike levels one can go down until there are the leaves of one of the trees. -/
lemma IsLevel.alike_leaves (hinj : Set.InjOn (fun pair => node pair.1 pair.2) s)
    (hjoins : ∀ pair ∈ joins node leaves, pair ∈ s)
    (hjoins' : ∀ pair ∈ joins node leaves', pair ∈ s) {level level' : List α}
    (hlevel : IsLevel node leaves level) (hlevel' : IsLevel node leaves' level')
    (h : Alike level level') :
    (∃ lower, IsLevel node leaves lower ∧ Alike lower leaves') ∨
      ∃ lower', IsLevel node leaves' lower' ∧ Alike leaves lower' := by
  induction hlevel generalizing level' with
  | base => exact Or.inr ⟨level', hlevel', h⟩
  | @next lower hlower hmore ih =>
    cases hlevel' with
    | base => exact Or.inl ⟨pairUp node lower, hlower.next hmore, h⟩
    | @next lower' hlower' hmore' =>
      have hpairs : ∀ pair ∈ pairs lower, pair ∈ s := fun pair hpair =>
        hjoins pair (hlower.pairs_subset hmore hpair)
      have hpairs' : ∀ pair ∈ pairs lower', pair ∈ s := fun pair hpair =>
        hjoins' pair (hlower'.pairs_subset hmore' hpair)
      exact ih hlower' (Alike.of_pairUp hinj hpairs hpairs' h)

/-- **Trees with one root have alike leaves**, if no two pairs in them are joined into the same node
and no leaf is a node. -/
theorem alike_of_root?_eq (hinj : Set.InjOn (fun pair => node pair.1 pair.2) s)
    (hjoins : ∀ pair ∈ joins node leaves, pair ∈ s)
    (hjoins' : ∀ pair ∈ joins node leaves', pair ∈ s)
    (hapart : ∀ pair ∈ s, node pair.1 pair.2 ∉ leaves)
    (hapart' : ∀ pair ∈ s, node pair.1 pair.2 ∉ leaves') {top : α}
    (hroot : root? node leaves = some top) (hroot' : root? node leaves' = some top) :
    Alike leaves leaves' := by
  have hdown := IsLevel.alike_leaves hinj hjoins hjoins' (IsLevel.of_root? hroot)
    (IsLevel.of_root? hroot') (Alike.refl [top])
  rcases hdown with ⟨lower, hlower, halike⟩ | ⟨lower', hlower', halike⟩
  · rcases hlower.eq_leaves_or_mem with rfl | ⟨pair, hpair, hnode⟩
    · exact halike
    · exact absurd ((halike.mem_iff _).mp hnode) (hapart' pair (hjoins pair hpair))
  · rcases hlower'.eq_leaves_or_mem with rfl | ⟨pair, hpair, hnode⟩
    · exact halike
    · exact absurd ((halike.mem_iff _).mpr hnode) (hapart pair (hjoins' pair hpair))

end

end Chronicle.Merkle
