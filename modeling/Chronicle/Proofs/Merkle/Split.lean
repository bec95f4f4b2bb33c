import Chronicle.Proofs.Merkle.Levels
import Mathlib.Algebra.Group.Nat.Defs
import Mathlib.Data.Nat.Find
import Mathlib.Data.Nat.Log
import Mathlib.Order.Bounds.Basic

/-!
A hash tree taken apart from the top.

Whoever checks a tree takes it apart where a full subtree ends: the front is as long as the largest power of
two that leaves something over, and what is left over is a smaller tree, brought up to the height of the front
by joining its root with itself. The levels are built from the leaves up, over the whole width at a time. The
two agree because going up one level works on both parts apart as long as the front has an even number of
nodes, which it has until only its root is left.
-/

namespace Chronicle.Merkle

variable {α β : Type} {node : α → α → α}

/-! ### Height and levels -/

/-- The height of a tree with so many leaves: how often a level is halved until one node is left. -/
def height (leaves : Nat) : Nat := Nat.clog 2 leaves

lemma height_le_iff {leaves levels : Nat} : height leaves ≤ levels ↔ leaves ≤ 2 ^ levels :=
  Nat.clog_le_iff_le_pow (by decide)

lemma height_two_pow (levels : Nat) : height (2 ^ levels) = levels := Nat.clog_pow 2 levels (by decide)

lemma isLeast_height (leaves : Nat) : IsLeast {levels | leaves ≤ 2 ^ levels} (height leaves) :=
  ⟨height_le_iff.mp le_rfl, fun _ hroom => height_le_iff.mpr hroom⟩

lemma height_eq_succ {leaves levels : Nat} (hover : 2 ^ levels < leaves) (hroom : leaves ≤ 2 ^ (levels + 1)) :
    height leaves = levels + 1 := by
  have hle : height leaves ≤ levels + 1 := height_le_iff.mpr hroom
  have hlt : ¬ height leaves ≤ levels := fun hfits => absurd (height_le_iff.mp hfits) (by omega)
  omega

/-- The level that is reached by going up so many times. -/
def levelAbove (node : α → α → α) (steps : Nat) (level : List α) : List α := (pairUp node)^[steps] level

lemma levelAbove_add (node : α → α → α) (steps more : Nat) (level : List α) :
    levelAbove node (steps + more) level = levelAbove node more (levelAbove node steps level) := by
  rw [levelAbove, Nat.add_comm, Function.iterate_add_apply]
  rfl

lemma levelAbove_succ (node : α → α → α) (steps : Nat) (level : List α) :
    levelAbove node (steps + 1) level = pairUp node (levelAbove node steps level) :=
  levelAbove_add node steps 1 level

lemma length_levelAbove_le_iff {steps bound : Nat} {level : List α} :
    (levelAbove node steps level).length ≤ bound ↔ level.length ≤ bound * 2 ^ steps := by
  induction steps generalizing bound with
  | zero => rw [Nat.pow_zero, Nat.mul_one]; rfl
  | succ steps ih =>
    rw [levelAbove_succ, length_pairUp]
    calc ((levelAbove node steps level).length + 1) / 2 ≤ bound
        ↔ (levelAbove node steps level).length ≤ bound * 2 := by omega
      _ ↔ level.length ≤ bound * 2 ^ (steps + 1) := by rw [ih, Nat.mul_assoc, ← Nat.pow_succ']

lemma one_lt_length_levelAbove {steps : Nat} {leaves : List α} :
    1 < (levelAbove node steps leaves).length ↔ steps < height leaves.length := by
  rw [← not_le, ← not_le, length_levelAbove_le_iff, Nat.one_mul, height_le_iff]

lemma root?_eq_head? (node : α → α → α) (leaves : List α) :
    root? node leaves = (levelAbove node (height leaves.length) leaves).head? := by
  have hsteps : ∀ steps ≤ height leaves.length,
      root? node leaves = root? node (levelAbove node steps leaves) := by
    intro steps hsteps
    induction steps with
    | zero => rfl
    | succ steps ih =>
      rw [ih (Nat.le_of_succ_le hsteps), levelAbove_succ, root?_pairUp (one_lt_length_levelAbove.mpr hsteps)]
  have hlast : ¬ 1 < (levelAbove node (height leaves.length) leaves).length := by
    rw [one_lt_length_levelAbove]
    exact lt_irrefl _
  rw [hsteps _ le_rfl]
  generalize levelAbove node (height leaves.length) leaves = last at hlast
  rcases last with _ | ⟨top, _ | ⟨next, rest⟩⟩
  · rw [root?]; rfl
  · rw [root?]; rfl
  · simp at hlast

/-! ### Parts of a level -/

lemma pairUp_append {front : List α} (heven : front.length % 2 = 0) (back : List α) :
    pairUp node (front ++ back) = pairUp node front ++ pairUp node back := by
  induction front using pairs.induct with
  | case1 left right rest ih =>
    have hrest : rest.length % 2 = 0 := by
      simp only [List.length_cons] at heven
      omega
    rw [List.cons_append, List.cons_append, pairUp, pairUp, ih hrest, List.cons_append]
  | case2 left => simp at heven
  | case3 => rfl

/-- A front of full subtrees goes up apart from what follows it until only their roots are left. -/
lemma levelAbove_append {steps subtrees : Nat} {front : List α} (hfull : front.length = subtrees * 2 ^ steps)
    (back : List α) :
    levelAbove node steps (front ++ back) = levelAbove node steps front ++ levelAbove node steps back := by
  induction steps generalizing front back with
  | zero => rfl
  | succ steps ih =>
    have hlength : front.length = 2 * (subtrees * 2 ^ steps) := by
      rw [hfull, Nat.pow_succ, ← Nat.mul_assoc, Nat.mul_comm]
    have hnext : (pairUp node front).length = subtrees * 2 ^ steps := by rw [length_pairUp]; omega
    have hup : ∀ level, levelAbove node (steps + 1) level = levelAbove node steps (pairUp node level) :=
      fun _ => rfl
    rw [hup, hup, hup, pairUp_append (by omega), ih hnext]

/-- A root that is joined with itself so many times. -/
def raised (node : α → α → α) (times : Nat) (root : α) : α := (fun top => node top top)^[times] root

lemma levelAbove_singleton (node : α → α → α) (steps : Nat) (root : α) :
    levelAbove node steps [root] = [raised node steps root] := by
  induction steps with
  | zero => rfl
  | succ steps ih => rw [levelAbove_succ, ih, raised, raised, Function.iterate_succ_apply']; rfl

lemma levelAbove_raised {own levels : Nat} (hlower : own ≤ levels) {level : List α} {root : α}
    (hroot : levelAbove node own level = [root]) :
    levelAbove node levels level = [raised node (levels - own) root] := by
  have hlevels : own + (levels - own) = levels := by omega
  rw [← levelAbove_singleton, ← hroot, ← levelAbove_add, hlevels]

/-! ### From the top -/

/-- The largest power of two below a number of leaves. -/
def frontSize (leaves : Nat) : Nat := Nat.findGreatest Nat.isPowerOfTwo (leaves - 1)

/-- The front is a full subtree that leaves something over, and what is left over is not larger. -/
lemma frontSize_spec {leaves : Nat} (h : 1 < leaves) :
    ∃ levels, frontSize leaves = 2 ^ levels ∧ 2 ^ levels < leaves ∧ leaves ≤ 2 ^ (levels + 1) := by
  have hone : Nat.isPowerOfTwo 1 := ⟨0, rfl⟩
  obtain ⟨levels, hlevels⟩ : (frontSize leaves).isPowerOfTwo :=
    Nat.findGreatest_spec (Nat.le_sub_one_of_lt h) hone
  have hbelow : frontSize leaves ≤ leaves - 1 := Nat.findGreatest_le _
  refine ⟨levels, hlevels, by omega, ?_⟩
  by_contra hmore
  have hgreatest : 2 ^ (levels + 1) ≤ frontSize leaves :=
    Nat.le_findGreatest (by omega) ⟨levels + 1, rfl⟩
  have hgrows : 2 ^ levels < 2 ^ (levels + 1) := Nat.pow_lt_pow_right (by decide) (Nat.lt_succ_self _)
  omega

lemma frontSize_lt {leaves : Nat} (h : 1 < leaves) : frontSize leaves < leaves := by
  obtain ⟨levels, hfront, hlt, -⟩ := frontSize_spec h
  omega

lemma frontSize_pos {leaves : Nat} (h : 1 < leaves) : 0 < frontSize leaves := by
  obtain ⟨levels, hfront, -⟩ := frontSize_spec h
  rw [hfront]
  exact Nat.two_pow_pos levels

/-- The root of a tree as it is computed from the top. One element gives its leaf. More are split behind the
largest power of two below their number, and the root of the rest is joined with itself until it is as high as
the root of the front. -/
def splitRoot? (leaf : β → α) (node : α → α → α) (elements : List β) : Option α :=
  if 1 < elements.length then do
    let front := frontSize elements.length
    let left ← splitRoot? leaf node (elements.take front)
    let right ← splitRoot? leaf node (elements.drop front)
    return node left (raised node (Nat.log2 front - height (elements.length - front)) right)
  else elements.head?.map leaf
termination_by elements.length
decreasing_by
  · rename_i hmore
    have := frontSize_lt hmore
    rw [List.length_take]
    omega
  · rename_i hmore
    have := frontSize_pos hmore
    rw [List.length_drop]
    omega

/-- **Levels and splitting agree**: the root that is computed from the top is the only node of the level at the
height of the tree. -/
theorem splitRoot?_spec (leaf : β → α) (node : α → α → α) {elements : List β} (h : elements ≠ []) :
    ∃ top, splitRoot? leaf node elements = some top ∧
      levelAbove node (height elements.length) (elements.map leaf) = [top] := by
  induction elements using splitRoot?.induct with
  | case1 elements hmore front ihfront ihback =>
    obtain ⟨levels, hfront, hover, hroom⟩ := frontSize_spec hmore
    have hpos : 0 < 2 ^ levels := Nat.two_pow_pos levels
    have hfull : (elements.take (2 ^ levels)).length = 2 ^ levels := by rw [List.length_take]; omega
    have hrest : (elements.drop (2 ^ levels)).length = elements.length - 2 ^ levels := List.length_drop
    simp only [front, hfront] at ihfront ihback
    obtain ⟨left, hleft, hleftTop⟩ := ihfront (List.ne_nil_of_length_pos (by omega))
    obtain ⟨right, hright, hrightTop⟩ := ihback (List.ne_nil_of_length_pos (by omega))
    rw [hfull, height_two_pow] at hleftTop
    rw [hrest] at hrightTop
    -- what is left over is not larger than the front, so its root can be raised to the root of the front
    have hlower : height (elements.length - 2 ^ levels) ≤ levels := height_le_iff.mpr (by omega)
    have hraised := levelAbove_raised hlower hrightTop
    have hsubtree : ((elements.take (2 ^ levels)).map leaf).length = 1 * 2 ^ levels := by
      rw [List.length_map, hfull, Nat.one_mul]
    have hsplit : levelAbove node levels (elements.map leaf) =
        [left, raised node (levels - height (elements.length - 2 ^ levels)) right] := by
      calc levelAbove node levels (elements.map leaf)
          = levelAbove node levels
              ((elements.take (2 ^ levels)).map leaf ++ (elements.drop (2 ^ levels)).map leaf) := by
            rw [← List.map_append, List.take_append_drop]
        _ = [left] ++ [raised node (levels - height (elements.length - 2 ^ levels)) right] := by
            rw [levelAbove_append hsubtree, hleftTop, hraised]
    refine ⟨node left (raised node (levels - height (elements.length - 2 ^ levels)) right), ?_, ?_⟩
    · rw [splitRoot?, if_pos hmore]
      simp only [hfront, hleft, hright, Nat.log2_two_pow]
      rfl
    · rw [height_eq_succ hover hroom, levelAbove_succ, hsplit]
      rfl
  | case2 elements hfew =>
    obtain ⟨element, rfl⟩ : ∃ element, elements = [element] := by
      have hpos := List.length_pos_iff.mpr h
      rw [← List.length_eq_one_iff]
      omega
    refine ⟨leaf element, ?_, rfl⟩
    rw [splitRoot?]
    rfl

example : splitRoot? (fun leaf : Nat => [leaf]) (· ++ ·) [1, 2, 3, 4, 5] = some [1, 2, 3, 4, 5, 5, 5, 5] := by cbv

end Chronicle.Merkle
