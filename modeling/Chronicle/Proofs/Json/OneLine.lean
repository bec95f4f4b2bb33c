import Chronicle.Json.Printer
import Mathlib.Tactic.Lemma

/-!
A compact text stands on one line.

Control characters are escaped wherever a string is written, the bytes of longer characters are above them,
and numbers and punctuation have none. So there is no byte below a blank in the compact text of a document,
and a line break that follows it is the only one.
-/

namespace Chronicle

/-- A text without control characters. -/
def Uncontrolled (text : Bytes) : Prop := ∀ b ∈ text, 32 ≤ b

namespace Uncontrolled

variable {text behind : Bytes}

lemma nil : Uncontrolled [] := fun _ h => absurd h List.not_mem_nil

lemma cons {b : UInt8} (hb : 32 ≤ b) (h : Uncontrolled text) : Uncontrolled (b :: text) :=
  List.forall_mem_cons.mpr ⟨hb, h⟩

lemma append (h : Uncontrolled text) (h' : Uncontrolled behind) : Uncontrolled (text ++ behind) :=
  List.forall_mem_append.mpr ⟨h, h'⟩

lemma of_subset (h : Uncontrolled text) (hsubset : behind ⊆ text) : Uncontrolled behind :=
  fun b hb => h b (hsubset hb)

lemma replicate {b : UInt8} (hb : 32 ≤ b) (count : Nat) : Uncontrolled (List.replicate count b) := by
  intro other hother
  rwa [List.eq_of_mem_replicate hother]

lemma newline_notMem (h : Uncontrolled text) : Bytes.newline ∉ text :=
  fun hmem => absurd (h _ hmem) (by decide)

instance (text : Bytes) : Decidable (Uncontrolled text) :=
  List.decidableBAll (fun b => 32 ≤ b) text

end Uncontrolled

namespace Json

/-! ### Strings -/

lemma uncontrolled_hexDigit : ∀ n < 16, 32 ≤ Bytes.hexDigit n := by decide

lemma uncontrolled_hex (text : Bytes) : Uncontrolled (Bytes.hex text) := by
  intro digit hdigit
  obtain ⟨b, -, hmem⟩ := List.mem_flatMap.mp hdigit
  have hb : b.toNat < 256 := b.toNat_lt
  simp only [List.mem_cons, List.not_mem_nil, or_false] at hmem
  rcases hmem with rfl | rfl
  · exact uncontrolled_hexDigit _ (by omega)
  · exact uncontrolled_hexDigit _ (by omega)

lemma uncontrolled_escapedByte (b : UInt8) : Uncontrolled (escapedByte b) := by
  unfold escapedByte
  iterate 7
    split
    · decide
  split
  · exact .append (by decide) (uncontrolled_hex _)
  · next hvisible => exact .cons (UInt8.not_lt.mp hvisible) .nil

lemma uncontrolled_piece {b : UInt8} {rest : Bytes} {behind : Nat} (h : Utf8.piece b rest = .whole behind) :
    Uncontrolled (rest.take behind) :=
  fun c hc => UInt8.le_trans (by decide) (Utf8.high_of_piece h c hc)

lemma uncontrolled_escapedFrom (skip : Nat) (text : Bytes) : Uncontrolled (escapedFrom skip text) := by
  induction text generalizing skip with
  | nil => cases skip <;> exact .nil
  | cons b rest ih =>
    cases skip with
    | succ skip => exact ih skip
    | zero =>
      rw [escapedFrom]
      split
      · exact .append (uncontrolled_escapedByte b) (ih 0)
      next hb =>
      split
      · next behind hpiece =>
        have hfirst : 32 ≤ b := UInt8.le_trans (by decide) (UInt8.not_lt.mp hb)
        exact .append (.cons hfirst (uncontrolled_piece hpiece)) (ih behind)
      · exact .append (by decide) (ih _)

lemma uncontrolled_quoted (text : Bytes) : Uncontrolled (quoted text) :=
  .append (.append (by decide) (uncontrolled_escapedFrom 0 text)) (by decide)

/-! ### Numbers -/

lemma uncontrolled_decimal (n : Nat) : Uncontrolled (Bytes.decimal n) := by
  intro digit hdigit
  obtain ⟨c, hc, rfl⟩ := List.mem_map.mp hdigit
  have hdigit := Nat.isDigit_of_mem_toDigits (by decide) (Nat.le_refl 10) hc
  simp only [Char.isDigit, Bool.and_eq_true, decide_eq_true_eq] at hdigit
  obtain ⟨hlow, hhigh⟩ := hdigit
  have hlow : 48 ≤ c.toNat := UInt32.le_iff_toNat_le.mp hlow
  have hhigh : c.toNat ≤ 57 := UInt32.le_iff_toNat_le.mp hhigh
  have hvalue : c.toNat.toUInt8.toNat = c.toNat := Nat.mod_eq_of_lt (by omega)
  rw [UInt8.le_iff_toNat_le, hvalue]
  exact Nat.le_trans (by decide) hlow

lemma uncontrolled_signedDecimal (n : Int) : Uncontrolled (Bytes.signedDecimal n) := by
  cases n with
  | ofNat n => exact uncontrolled_decimal n
  | negSucc n => exact .cons (by decide) (uncontrolled_decimal _)

lemma uncontrolled_exponentText (exponent : Int) : Uncontrolled (exponentText exponent) := by
  refine .append ?_ (.append (.replicate (by decide) _) (uncontrolled_decimal _))
  split <;> decide

lemma uncontrolled_decimalDigits {digits : Bytes} (h : Uncontrolled digits) (exponent : Int) :
    Uncontrolled (decimalDigits digits exponent) := by
  have htake : ∀ count, Uncontrolled (digits.take count) :=
    fun count => h.of_subset (List.take_subset count digits)
  have hdrop : ∀ count, Uncontrolled (digits.drop count) :=
    fun count => h.of_subset (List.drop_subset count digits)
  unfold decimalDigits
  dsimp only
  split
  · exact .append (.append h (.replicate (by decide) _)) (by decide)
  split
  · exact .append (.append (htake _) (by decide)) (hdrop _)
  split
  · exact .append (.append (by decide) (.replicate (by decide) _)) h
  refine .append (.append (htake 1) ?_) (uncontrolled_exponentText _)
  split
  · exact .nil
  · exact .append (by decide) (hdrop 1)

lemma uncontrolled_decimalText (negative : Bool) (digits : Nat) (exponent : Int) :
    Uncontrolled (decimalText negative digits exponent) := by
  refine .append ?_ ?_
  · split <;> decide
  split
  · decide
  · exact uncontrolled_decimalDigits
      ((uncontrolled_decimal digits).of_subset (List.take_subset _ _)) _

/-! ### Documents -/

mutual

/-- **A compact text has no control character**, so it has no line break. -/
theorem uncontrolled_compact : ∀ json : Json, Uncontrolled json.compact
  | null => by decide
  | bool true => by decide
  | bool false => by decide
  | number value => uncontrolled_signedDecimal value
  | minusZero => by decide
  | decimal negative digits exponent => uncontrolled_decimalText negative digits exponent
  | string text => uncontrolled_quoted text
  | array items => .append (.append (by decide) (uncontrolled_compactItems items)) (by decide)
  | object members => .append (.append (by decide) (uncontrolled_compactMembers members)) (by decide)

theorem uncontrolled_compactItems : ∀ items : List Json, Uncontrolled (compactItems items)
  | [] => .nil
  | [item] => uncontrolled_compact item
  | item :: next :: rest =>
    .append (.append (uncontrolled_compact item) (by decide)) (uncontrolled_compactItems (next :: rest))

theorem uncontrolled_compactMembers :
    ∀ members : List (Bytes × Json), Uncontrolled (compactMembers members)
  | [] => .nil
  | [(key, value)] => .append (.append (uncontrolled_quoted key) (by decide)) (uncontrolled_compact value)
  | (key, value) :: next :: rest =>
    .append (.append (.append (.append (uncontrolled_quoted key) (by decide))
      (uncontrolled_compact value)) (by decide)) (uncontrolled_compactMembers (next :: rest))

end

end Json

end Chronicle
