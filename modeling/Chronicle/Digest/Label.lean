import Chronicle.Digest.Sha256

/-!
Labels of opaque content, and the comparison used for digests.
-/

namespace Chronicle.Digest

/-- The provenance label of a content, the digest of all its bytes behind the algorithm's name. -/
def label (content : Bytes) : Bytes := utf8 "sha256:" ++ Sha256.hex content

/-- Every position contributes its difference, so the work depends on the lengths alone. -/
def difference : Bytes → Bytes → UInt8
  | a :: as, b :: bs => (a ^^^ b) ||| difference as bs
  | _, _ => 0

/-- Compares all positions of byte strings of one length before it answers. -/
def agree (a b : Bytes) : Bool := a.length == b.length && difference a b == 0

theorem difference_self (a : Bytes) : difference a a = 0 := by
  induction a with
  | nil => rfl
  | cons b rest ih => simp [difference, ih]

theorem eq_of_difference_eq_zero {a b : Bytes} (hlength : a.length = b.length)
    (h : difference a b = 0) : a = b := by
  induction a generalizing b with
  | nil => exact (List.length_eq_zero_iff.mp hlength.symm).symm
  | cons x a ih =>
    cases b with
    | nil => cases hlength
    | cons y b =>
      obtain ⟨hfirst, hrest⟩ := UInt8.or_eq_zero_iff.mp h
      rw [UInt8.xor_eq_zero_iff.mp hfirst, ih (Nat.succ.inj hlength) hrest]

@[simp] theorem agree_self (a : Bytes) : agree a a = true := by
  simp [agree, difference_self]

theorem eq_of_agree {a b : Bytes} (h : agree a b = true) : a = b := by
  simp only [agree, Bool.and_eq_true, beq_iff_eq] at h
  exact eq_of_difference_eq_zero h.1 h.2

end Chronicle.Digest
