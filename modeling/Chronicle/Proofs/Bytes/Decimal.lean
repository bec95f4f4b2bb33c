import Chronicle.Bytes
import Mathlib.Algebra.Group.Nat.Defs
import Mathlib.Tactic.ByContra
import Mathlib.Tactic.Lemma
import Mathlib.Tactic.Tauto

/-!
Numbers in a field of fixed width.

A number that is written in decimal and filled up with zeros has one digit for each place of the field. So it
can be read back without looking at what follows, and texts of such fields are compared number by number.
-/

namespace Chronicle.Bytes

/-- The last `width` digits of a number, the lowest one last. -/
def digits : Nat → Nat → Bytes
  | 0, _ => []
  | width + 1, n => digits width (n / 10) ++ [(48 + n % 10).toUInt8]

@[simp] lemma length_digits (width n : Nat) : (digits width n).length = width := by
  induction width generalizing n with
  | zero => rfl
  | succ width ih => rw [digits, List.length_append, ih, List.length_singleton]

lemma digits_zero (width : Nat) : digits width 0 = List.replicate width 48 := by
  induction width with
  | zero => rfl
  | succ width ih => rw [digits, Nat.zero_div, ih, List.replicate_succ']; rfl

lemma toNat_digit (n : Nat) : (48 + n % 10).toUInt8.toNat = 48 + n % 10 := by
  rw [Nat.toUInt8_eq, UInt8.toNat_ofNat']
  omega

/-! ### Writing -/

lemma digitChar_byte : ∀ n < 10, n.digitChar.toNat.toUInt8 = (48 + n).toUInt8 := by decide

lemma decimal_of_lt {n : Nat} (h : n < 10) : decimal n = [(48 + n % 10).toUInt8] := by
  rw [decimal, Nat.toDigits_of_lt_base h, List.map_singleton, digitChar_byte n h, Nat.mod_eq_of_lt h]

lemma decimal_of_le {n : Nat} (h : 10 ≤ n) : decimal n = decimal (n / 10) ++ [(48 + n % 10).toUInt8] := by
  rw [decimal, Nat.toDigits_of_base_le (by decide) h, List.map_append, List.map_singleton,
    digitChar_byte _ (Nat.mod_lt n (by decide))]
  rfl

lemma signedDecimal_of_nonneg {n : Int} (h : 0 ≤ n) : signedDecimal n = decimal n.toNat := by
  obtain ⟨n, rfl⟩ := Int.eq_ofNat_of_zero_le h
  rfl

lemma zeroPadded_concat (width : Nat) (text : Bytes) (b : UInt8) :
    zeroPadded (width + 1) (text ++ [b]) = zeroPadded width text ++ [b] := by
  simp [zeroPadded]

theorem zeroPadded_decimal {width n : Nat} (h : n < 10 ^ (width + 1)) :
    zeroPadded (width + 1) (decimal n) = digits (width + 1) n := by
  induction width generalizing n with
  | zero =>
    rw [decimal_of_lt h, digits]
    rfl
  | succ width ih =>
    by_cases hn : n < 10
    · have hzero : n / 10 = 0 := by omega
      rw [decimal_of_lt hn, ← List.nil_append [_], zeroPadded_concat, digits, hzero, digits_zero, zeroPadded,
        List.append_nil]
      rfl
    · have hrest : n / 10 < 10 ^ (width + 1) := by rw [Nat.pow_succ] at h; omega
      rw [decimal_of_le (by omega), zeroPadded_concat, ih hrest]
      rfl

lemma decimal_eq_digits {width n : Nat} (hleast : 10 ^ width ≤ n) (h : n < 10 ^ (width + 1)) :
    decimal n = digits (width + 1) n := by
  have hlength : width + 1 ≤ (decimal n).length := by
    rw [decimal, List.length_map]
    by_contra hshort
    have hpos : 0 < (Nat.toDigits 10 n).length := Nat.length_toDigits_pos
    have hlt : n < 10 ^ width := (Nat.length_toDigits_le_iff (by decide) (by omega)).mp (by omega)
    omega
  rw [← zeroPadded_decimal h, zeroPadded, Nat.sub_eq_zero_of_le hlength]
  rfl

/-! ### Reading -/

/-- The number that digits stand for. -/
def number (text : Bytes) : Nat := text.foldl (fun n b => n * 10 + (b.toNat - 48)) 0

/-- The number in front of a text, which is written with so many digits, and what follows it. -/
def readNumber? (width : Nat) (text : Bytes) : Option (Nat × Bytes) :=
  if (text.take width).length = width ∧ (text.take width).all isDigit then
    some (number (text.take width), text.drop width)
  else none

/-- What follows a mark. -/
def readMark? (mark text : Bytes) : Option Bytes :=
  if mark.isPrefixOf text then some (text.drop mark.length) else none

lemma number_digits {width n : Nat} (h : n < 10 ^ width) : number (digits width n) = n := by
  induction width generalizing n with
  | zero =>
    rw [Nat.pow_zero] at h
    rw [Nat.lt_one_iff.mp h]
    rfl
  | succ width ih =>
    have hrest : n / 10 < 10 ^ width := by rw [Nat.pow_succ] at h; omega
    rw [digits, number, List.foldl_append, ← number, ih hrest, List.foldl_cons, List.foldl_nil, toNat_digit]
    omega

lemma isDigit_digit (n : Nat) : isDigit (48 + n % 10).toUInt8 = true := by
  have hbyte : ∀ d < 10, isDigit (48 + d).toUInt8 = true := by decide
  exact hbyte _ (Nat.mod_lt n (by decide))

lemma isDigit_digits (width n : Nat) : (digits width n).all isDigit = true := by
  induction width generalizing n with
  | zero => rfl
  | succ width ih =>
    rw [digits, List.all_append, ih, List.all_cons, isDigit_digit]
    rfl

lemma decimal_ne_nil (n : Nat) : decimal n ≠ [] := by
  rw [decimal, Ne, List.map_eq_nil_iff]
  exact Nat.toDigits_ne_nil

lemma isDigit_decimal (n : Nat) : ∀ b ∈ decimal n, isDigit b = true := by
  induction n using Nat.strongRecOn with
  | ind n ih =>
    by_cases hn : n < 10
    · rw [decimal_of_lt hn]
      exact List.forall_mem_singleton.mpr (isDigit_digit n)
    · rw [decimal_of_le (by omega)]
      exact List.forall_mem_append.mpr
        ⟨ih (n / 10) (by omega), List.forall_mem_singleton.mpr (isDigit_digit n)⟩

lemma number_decimal (n : Nat) : number (decimal n) = n := by
  induction n using Nat.strongRecOn with
  | ind n ih =>
    by_cases hn : n < 10
    · rw [decimal_of_lt hn, number, List.foldl_cons, List.foldl_nil, toNat_digit]
      omega
    · rw [decimal_of_le (by omega), number, List.foldl_append, ← number, ih (n / 10) (by omega),
        List.foldl_cons, List.foldl_nil, toNat_digit]
      omega

lemma head_decimal {n : Nat} (hn : 0 < n) : (decimal n).head? ≠ some 48 := by
  induction n using Nat.strongRecOn with
  | ind n ih =>
    by_cases hlt : n < 10
    · have hdigit : ∀ d < 10, 0 < d → (48 + d % 10).toUInt8 ≠ 48 := by decide
      rw [decimal_of_lt hlt]
      simpa using hdigit n hlt hn
    · have hfront := ih (n / 10) (by omega) (by omega)
      obtain ⟨d, front, hdecimal⟩ := List.exists_cons_of_ne_nil (decimal_ne_nil (n / 10))
      rw [hdecimal] at hfront
      rw [decimal_of_le (by omega), hdecimal]
      exact hfront

lemma readNumber?_digits {width n : Nat} (h : n < 10 ^ width) (rest : Bytes) :
    readNumber? width (digits width n ++ rest) = some (n, rest) := by
  have htake : (digits width n ++ rest).take width = digits width n := List.take_left' (length_digits ..)
  have hdrop : (digits width n ++ rest).drop width = rest := List.drop_left' (length_digits ..)
  rw [readNumber?, htake, hdrop, if_pos ⟨length_digits .., isDigit_digits ..⟩, number_digits h]

lemma readMark?_append (mark rest : Bytes) : readMark? mark (mark ++ rest) = some rest := by
  rw [readMark?, if_pos (List.isPrefixOf_iff_prefix.mpr (List.prefix_append ..)), List.drop_left]

/-! ### Comparing -/

/-- Texts are compared by what they start with, as far as that is equally long, and then by what follows. -/
lemma append_lt_append_iff {front front' rest rest' : Bytes} (h : front.length = front'.length) :
    front ++ rest < front' ++ rest' ↔ front < front' ∨ front = front' ∧ rest < rest' := by
  induction front generalizing front' with
  | nil =>
    rw [List.eq_nil_of_length_eq_zero h.symm]
    simp
  | cons b front ih =>
    rcases front' with _ | ⟨b', front'⟩
    · cases h
    · rw [List.cons_append, List.cons_append, List.cons_lt_cons_iff, List.cons_lt_cons_iff, ih (Nat.succ.inj h),
        List.cons.injEq]
      tauto

lemma mark_append_lt_iff (mark : Bytes) {rest rest' : Bytes} : mark ++ rest < mark ++ rest' ↔ rest < rest' := by
  rw [append_lt_append_iff rfl]
  simp [List.lt_irrefl]

lemma digits_inj {width a b : Nat} (ha : a < 10 ^ width) (hb : b < 10 ^ width) (h : digits width a = digits width b) :
    a = b := by
  rw [← number_digits ha, h, number_digits hb]

lemma digits_lt_iff {width a b : Nat} (ha : a < 10 ^ width) (hb : b < 10 ^ width) :
    digits width a < digits width b ↔ a < b := by
  induction width generalizing a b with
  | zero =>
    rw [Nat.pow_zero] at ha hb
    rw [Nat.lt_one_iff.mp ha, Nat.lt_one_iff.mp hb]
    simp [digits]
  | succ width ih =>
    have hrest : a / 10 < 10 ^ width := by rw [Nat.pow_succ] at ha; omega
    have hrest' : b / 10 < 10 ^ width := by rw [Nat.pow_succ] at hb; omega
    have hlast : [(48 + a % 10).toUInt8] < [(48 + b % 10).toUInt8] ↔ a % 10 < b % 10 := by
      rw [List.cons_lt_cons_iff, UInt8.lt_iff_toNat_lt, toNat_digit, toNat_digit]
      simp
    have hsame : digits width (a / 10) = digits width (b / 10) ↔ a / 10 = b / 10 :=
      ⟨digits_inj hrest hrest', fun heq => by rw [heq]⟩
    rw [digits, digits, append_lt_append_iff (by simp), ih hrest hrest', hlast, hsame]
    omega

lemma digits_append_lt_iff {width a b : Nat} (ha : a < 10 ^ width) (hb : b < 10 ^ width) {rest rest' : Bytes} :
    digits width a ++ rest < digits width b ++ rest' ↔ a < b ∨ a = b ∧ rest < rest' := by
  have hsame : digits width a = digits width b ↔ a = b := ⟨digits_inj ha hb, fun heq => by rw [heq]⟩
  rw [append_lt_append_iff (by simp), digits_lt_iff ha hb, hsame]

end Chronicle.Bytes
