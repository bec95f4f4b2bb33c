import Chronicle.Digest.Label
import Mathlib.Tactic.Lemma

/-!
The comparison of digests.

All positions are looked at before there is an answer, and one byte collects in which bits they differ. A bit
that is set is never cleared again, so differences at several positions do not make up for each other, and
byte strings agree only if they are the same.
-/

namespace Chronicle.Digest

/-- What is collected after one more position. -/
def collect (collected : UInt8) (position : UInt8 × UInt8) : UInt8 :=
  collected ||| (position.1 ^^^ position.2)

lemma foldl_collect (a b : Bytes) (collected : UInt8) :
    (a.zip b).foldl collect collected = collected ||| difference a b := by
  induction a generalizing b collected with
  | nil => simp [difference]
  | cons x a ih =>
    rcases b with _ | ⟨y, b⟩
    · simp [difference]
    · rw [List.zip_cons_cons, List.foldl_cons, ih, collect, difference, UInt8.or_assoc]

lemma testBit_collect (collected : UInt8) (position : UInt8 × UInt8) (bit : Nat) :
    (collect collected position).toNat.testBit bit =
      (collected.toNat.testBit bit || (position.1.toNat.testBit bit != position.2.toNat.testBit bit)) := by
  rw [collect, UInt8.toNat_or, UInt8.toNat_xor, Nat.testBit_or, Nat.testBit_xor]

/-- All positions: a bit is set if it was set, or if some position has bytes that differ in it. -/
lemma testBit_foldl_collect (positions : List (UInt8 × UInt8)) (collected : UInt8) (bit : Nat) :
    (positions.foldl collect collected).toNat.testBit bit = true ↔
      collected.toNat.testBit bit = true ∨
        ∃ position ∈ positions, position.1.toNat.testBit bit ≠ position.2.toNat.testBit bit := by
  induction positions generalizing collected with
  | nil => simp
  | cons position positions ih =>
    rw [List.foldl_cons, ih, testBit_collect, Bool.or_eq_true, bne_iff_ne, or_assoc]
    simp only [List.mem_cons, exists_eq_or_imp]

/-- **Byte strings agree exactly if they are equal**, whatever their lengths. The byte that is collected on the
way has exactly the bits set in which two bytes at one position differ: no position is left out, and no difference
takes back another. -/
theorem agree_iff_eq (a b : Bytes) :
    (agree a b = true ↔ a = b) ∧
      ∀ bit, (difference a b).toNat.testBit bit = true ↔
        ∃ position ∈ a.zip b, position.1.toNat.testBit bit ≠ position.2.toNat.testBit bit := by
  refine ⟨⟨eq_of_agree, fun h => ?_⟩, fun bit => ?_⟩
  · rw [h]
    exact agree_self b
  · have hloop : difference a b = (a.zip b).foldl collect 0 := by rw [foldl_collect, UInt8.zero_or]
    rw [hloop, testBit_foldl_collect]
    simp

/-- Two differences in the same bits do not cancel. -/
example : agree [1, 1] [0, 0] = false := rfl

end Chronicle.Digest
