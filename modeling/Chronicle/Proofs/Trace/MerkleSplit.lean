import Chronicle.Proofs.Merkle.Split
import Chronicle.Trace.Hash

/-!
The root over span hashes, for whoever checks it from the top.

The recorder joins whole levels until one node is left. An auditor who holds a part of the span hashes splits
the tree instead and recomputes one side of it. Both come to the same root, for every number of spans, and the
loop over the levels ends after as many rounds as the tree is high.
-/

namespace Chronicle.Trace

open Chronicle.Merkle

lemma merkleRoot_eq_top {spanHashes : List Bytes} {top : Bytes}
    (h : levelAbove nodeHash (height spanHashes.length) (spanHashes.map leafHash) = [top]) :
    merkleRoot spanHashes = top := by
  rw [merkleRoot, root?_eq_head?, List.length_map, h]
  rfl

/-- **The levels give the tree that is split from the top.** For all span hashes, if there are any, splitting
gives the root that the recorder computes. The recorder's loop ends: there are as many levels of nodes as are
needed to have room for all span hashes, on every level before the last there is more than one node left, and the
last one is the root alone. -/
theorem merkleRoot_splits {spanHashes : List Bytes} (h : spanHashes ≠ []) :
    splitRoot? leafHash nodeHash spanHashes = some (merkleRoot spanHashes) ∧
      ∃ levels, IsLeast {levels | spanHashes.length ≤ 2 ^ levels} levels ∧
        (∀ steps < levels, 1 < (levelAbove nodeHash steps (spanHashes.map leafHash)).length) ∧
        levelAbove nodeHash levels (spanHashes.map leafHash) = [merkleRoot spanHashes] := by
  obtain ⟨top, hsplit, htop⟩ := splitRoot?_spec leafHash nodeHash h
  rw [merkleRoot_eq_top htop]
  refine ⟨hsplit, height spanHashes.length, isLeast_height _, fun steps hsteps => ?_, htop⟩
  rw [one_lt_length_levelAbove, List.length_map]
  exact hsteps

/-- Five span hashes: the fifth one is joined with itself twice. -/
def fiveHashes : List Bytes := [[97], [], [124, 98], [97], [99]]

theorem merkleRoot_splits_fiveHashes :
    fiveHashes ≠ [] ∧ splitRoot? leafHash nodeHash fiveHashes = some (merkleRoot fiveHashes) ∧
      1 < (levelAbove nodeHash 2 (fiveHashes.map leafHash)).length ∧
      levelAbove nodeHash 3 (fiveHashes.map leafHash) = [merkleRoot fiveHashes] := by
  have hne : fiveHashes ≠ [] := by decide
  obtain ⟨hsplit, levels, ⟨hroom, hleast⟩, hmore, hroot⟩ := merkleRoot_splits hne
  have hmost : levels ≤ 3 := hleast (show fiveHashes.length ≤ 2 ^ 3 by decide)
  have hlevels : levels = 3 := by
    refine le_antisymm hmost (Nat.le_of_not_lt fun hfew => ?_)
    have hshort : 2 ^ levels ≤ 2 ^ 2 := Nat.pow_le_pow_right (by decide) (Nat.le_of_lt_succ hfew)
    exact absurd (le_trans hroom hshort) (by decide)
  rw [hlevels] at hmore hroot
  exact ⟨hne, hsplit, hmore 2 (by decide), hroot⟩

end Chronicle.Trace
