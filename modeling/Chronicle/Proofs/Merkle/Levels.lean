import Chronicle.Merkle
import Mathlib.Data.List.Basic
import Mathlib.Tactic.Lemma

/-!
The levels of a hash tree, from the leaves up to the root, and what is joined on them.

The root is read off by going up level by level. For what two trees with one root have in common the
levels are needed the other way, from the root down, so a level is described as what can be reached
from the leaves, and the pairs joined on the way are collected.
-/

namespace Chronicle.Merkle

variable {α : Type} {node : α → α → α}

/-- The pairs that are joined on a level. -/
def pairs : List α → List (α × α)
  | left :: right :: rest => (left, right) :: pairs rest
  | [left] => [(left, left)]
  | [] => []

lemma pairUp_eq_map (node : α → α → α) (level : List α) :
    pairUp node level = (pairs level).map fun pair => node pair.1 pair.2 := by
  induction level using pairs.induct with
  | case1 left right rest ih => rw [pairUp, pairs, List.map_cons, ih]
  | case2 left => rfl
  | case3 => rfl

lemma mem_iff_exists_pair {level : List α} {x : α} :
    x ∈ level ↔ ∃ pair ∈ pairs level, x = pair.1 ∨ x = pair.2 := by
  induction level using pairs.induct with
  | case1 left right rest ih => simp only [pairs, List.mem_cons, exists_eq_or_imp, ih, or_assoc]
  | case2 left => simp [pairs]
  | case3 => simp [pairs]

/-- All pairs joined in a tree, level by level. -/
def joins (node : α → α → α) : List α → List (α × α)
  | [] => []
  | [_] => []
  | left :: right :: rest =>
    pairs (left :: right :: rest) ++ joins node (pairUp node (left :: right :: rest))
termination_by level => level.length
decreasing_by simp only [length_pairUp, List.length_cons]; omega

lemma joins_eq_append {level : List α} (h : 1 < level.length) :
    joins node level = pairs level ++ joins node (pairUp node level) := by
  rcases level with _ | ⟨left, _ | ⟨right, rest⟩⟩
  · simp at h
  · simp at h
  · rw [joins]

lemma root?_pairUp {level : List α} (h : 1 < level.length) :
    root? node level = root? node (pairUp node level) := by
  rcases level with _ | ⟨left, _ | ⟨right, rest⟩⟩
  · simp at h
  · simp at h
  · rw [root?]

/-- The root is the last of all nodes of the tree, the leaves first. -/
theorem root?_eq_getLast? (node : α → α → α) (leaves : List α) :
    root? node leaves =
      (leaves ++ (joins node leaves).map fun pair => node pair.1 pair.2).getLast? := by
  induction leaves using joins.induct node with
  | case1 => rw [root?, joins]; rfl
  | case2 top => rw [root?, joins]; rfl
  | case3 left right rest ih =>
    rw [root?, joins, ih, List.map_append, ← pairUp_eq_map]
    refine (List.getLast?_append_of_ne_nil (left :: right :: rest) ?_).symm
    simp [pairUp]

lemma forall_mem_joins {P : α → Prop} (hnode : ∀ left right, P (node left right))
    {leaves : List α} (hleaves : ∀ leaf ∈ leaves, P leaf) :
    ∀ pair ∈ joins node leaves, P pair.1 ∧ P pair.2 := by
  induction leaves using joins.induct node with
  | case1 => simp [joins]
  | case2 leaf => simp [joins]
  | case3 left right rest ih =>
    have hnext : ∀ x ∈ pairUp node (left :: right :: rest), P x := by
      rw [pairUp_eq_map]
      intro x hx
      obtain ⟨pair, -, rfl⟩ := List.mem_map.mp hx
      exact hnode pair.1 pair.2
    intro pair hpair
    rw [joins] at hpair
    rcases List.mem_append.mp hpair with hpair | hpair
    · exact ⟨hleaves _ (mem_iff_exists_pair.mpr ⟨pair, hpair, Or.inl rfl⟩),
        hleaves _ (mem_iff_exists_pair.mpr ⟨pair, hpair, Or.inr rfl⟩)⟩
    · exact ih hnext pair hpair

/-! ### Going up -/

/-- A level that is reached from the leaves; the next one is only built while there are several nodes. -/
inductive IsLevel (node : α → α → α) (leaves : List α) : List α → Prop
  | base : IsLevel node leaves leaves
  | next {level : List α} : IsLevel node leaves level → 1 < level.length →
      IsLevel node leaves (pairUp node level)

namespace IsLevel

variable {leaves level : List α}

lemma of_pairUp (h : IsLevel node (pairUp node leaves) level) (hlength : 1 < leaves.length) :
    IsLevel node leaves level := by
  induction h with
  | base => exact base.next hlength
  | next _ hmore ih => exact ih.next hmore

lemma of_root? {top : α} (h : root? node leaves = some top) : IsLevel node leaves [top] := by
  induction leaves using joins.induct node with
  | case1 => simp [root?] at h
  | case2 leaf =>
    rw [root?, Option.some.injEq] at h
    rw [h]
    exact base
  | case3 left right rest ih =>
    rw [root?] at h
    exact (ih h).of_pairUp (by simp)

lemma joins_subset (h : IsLevel node leaves level) : joins node level ⊆ joins node leaves := by
  induction h with
  | base => exact List.Subset.refl _
  | next _ hmore ih =>
    rw [joins_eq_append hmore] at ih
    exact fun pair hpair => ih (List.mem_append_right _ hpair)

lemma pairs_subset (h : IsLevel node leaves level) (hmore : 1 < level.length) :
    pairs level ⊆ joins node leaves := by
  intro pair hpair
  refine h.joins_subset ?_
  rw [joins_eq_append hmore]
  exact List.mem_append_left _ hpair

lemma eq_leaves_or_mem (h : IsLevel node leaves level) :
    level = leaves ∨ ∃ pair ∈ joins node leaves, node pair.1 pair.2 ∈ level := by
  cases h with
  | base => exact Or.inl rfl
  | @next lower hlower hmore =>
    right
    rcases lower with _ | ⟨left, _ | ⟨right, rest⟩⟩
    · simp at hmore
    · simp at hmore
    · exact ⟨(left, right), hlower.pairs_subset hmore List.mem_cons_self, List.mem_cons_self⟩

lemma forall_mem {P : α → Prop} (hleaves : ∀ leaf ∈ leaves, P leaf)
    (hnode : ∀ left right, P (node left right)) (h : IsLevel node leaves level) :
    ∀ x ∈ level, P x := by
  cases h with
  | base => exact hleaves
  | next _ _ =>
    rw [pairUp_eq_map]
    intro x hx
    obtain ⟨pair, -, rfl⟩ := List.mem_map.mp hx
    exact hnode pair.1 pair.2

end IsLevel

lemma exists_root? (node : α → α → α) {leaves : List α} (h : leaves ≠ []) :
    ∃ top, root? node leaves = some top := by
  rw [root?_eq_getLast?, ← Option.isSome_iff_exists, List.getLast?_isSome]
  simp [h]

end Chronicle.Merkle
