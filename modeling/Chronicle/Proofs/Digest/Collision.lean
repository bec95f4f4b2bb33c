import Chronicle.Digest.Sha256
import Mathlib.Tactic.ByContra

/-!
Collisions among the texts that a computation hashes.

Nothing is assumed about the digest. What is said of hashes here is said up to two texts, among those
that were hashed, which differ and have the same digest.
-/

namespace Chronicle.Sha256

/-- Two different ones of these texts have the same digest. -/
def Collision (texts : List Bytes) : Prop :=
  ∃ a ∈ texts, ∃ b ∈ texts, a ≠ b ∧ hex a = hex b

lemma eq_of_hex_eq {texts : List Bytes} (hsafe : ¬ Collision texts) {a b : Bytes} (ha : a ∈ texts)
    (hb : b ∈ texts) (h : hex a = hex b) : a = b := by
  by_contra hne
  exact hsafe ⟨a, ha, b, hb, hne, h⟩

end Chronicle.Sha256
