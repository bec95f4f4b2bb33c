import Chronicle.Pattern.Reader
import Mathlib.Computability.Language

/-!
The texts of a pattern.

A pattern without assertions and references is a regular expression, and its texts are a regular language,
whatever the pattern prefers. A pattern that has been read gives each of its loops a number of its own.
-/

namespace Chronicle.Pattern

open Computability

/-! ### The language of a pattern -/

/-- One byte of a set. -/
def ByteSet.language (set : ByteSet) : Language UInt8 := {word | ∃ b, set.has b = true ∧ word = [b]}

namespace Node

/-- Nothing in the pattern looks at anything but the bytes that it takes. -/
def Regular : Node → Prop
  | empty | one _ => True
  | seq first second | alt first second => first.Regular ∧ second.Regular
  | group _ body | star _ _ body | plus _ _ body | opt _ _ body => body.Regular
  | lineStart | lineEnd | boundary _ | look _ _ | reference _ => False

instance decidableRegular : (node : Node) → Decidable node.Regular
  | empty | one _ => inferInstanceAs (Decidable True)
  | seq first second | alt first second =>
    have := decidableRegular first
    have := decidableRegular second
    inferInstanceAs (Decidable (first.Regular ∧ second.Regular))
  | group _ body | star _ _ body | plus _ _ body | opt _ _ body => decidableRegular body
  | lineStart | lineEnd | boundary _ | look _ _ | reference _ => inferInstanceAs (Decidable False)

/-- The texts of a regular pattern. -/
def language : Node → Language UInt8
  | empty => 1
  | one set => set.language
  | seq first second => first.language * second.language
  | alt first second => first.language + second.language
  | group _ body => body.language
  | star _ _ body => body.language∗
  | plus _ _ body => body.language * body.language∗
  | opt _ _ body => 1 + body.language
  | lineStart | lineEnd | boundary _ | look _ _ | reference _ => 0

/-- The numbers of the loops in a pattern. -/
def loops : Node → List Nat
  | seq first second | alt first second => first.loops ++ second.loops
  | group _ body | look _ body => body.loops
  | star loop _ body | plus loop _ body | opt loop _ body => loop :: body.loops
  | empty | one _ | lineStart | lineEnd | boundary _ | reference _ => []

/-! ### Loop numbers -/

/-- Loops are numbered from `next` on, each with a number of its own. -/
lemma numbered_loops (node : Node) (next : Nat) :
    (node.numbered next).1.loops.Nodup ∧ next ≤ (node.numbered next).2 ∧
      ∀ loop ∈ (node.numbered next).1.loops, next ≤ loop ∧ loop < (node.numbered next).2 := by
  induction node generalizing next with
  | seq first second ih ih' | alt first second ih ih' =>
    obtain ⟨hnodup, hle, hbounds⟩ := ih next
    obtain ⟨hnodup', hle', hbounds'⟩ := ih' (first.numbered next).2
    refine ⟨List.nodup_append.mpr ⟨hnodup, hnodup', ?_⟩, hle.trans hle', ?_⟩
    · rintro loop hloop _ hloop' rfl
      have hbelow := (hbounds loop hloop).2
      have habove := (hbounds' loop hloop').1
      omega
    · intro loop hloop
      rcases List.mem_append.mp hloop with hloop | hloop
      · exact ⟨(hbounds loop hloop).1, (hbounds loop hloop).2.trans_le hle'⟩
      · exact ⟨hle.trans (hbounds' loop hloop).1, (hbounds' loop hloop).2⟩
  | group index body ih | look negated body ih => exact ih next
  | star loop greedy body ih | plus loop greedy body ih | opt loop greedy body ih =>
    obtain ⟨hnodup, hle, hbounds⟩ := ih (next + 1)
    refine ⟨List.nodup_cons.mpr ⟨fun hmem => ?_, hnodup⟩, (Nat.le_succ next).trans hle, ?_⟩
    · have habove := (hbounds next hmem).1
      omega
    · intro other hother
      rcases List.mem_cons.mp hother with rfl | hother
      · exact ⟨le_rfl, hle⟩
      · exact ⟨(Nat.le_succ next).trans (hbounds other hother).1, (hbounds other hother).2⟩
  | empty | one | lineStart | lineEnd | boundary | reference => simp [numbered, loops]

end Node

/-- No two loops of a pattern that has been read have the same number. -/
theorem nodup_loops_of_read? {text : Bytes} {node : Node} (h : read? text = some node) :
    node.loops.Nodup := by
  obtain ⟨tokens, -, h⟩ := Option.bind_eq_some_iff.mp h
  obtain ⟨⟨_, state⟩, hread, h⟩ := Option.bind_eq_some_iff.mp h
  cases h
  obtain ⟨⟨part, ⟨left, _, _, _⟩⟩, -, hread⟩ := Option.bind_eq_some_iff.mp hread
  cases left with
  | nil =>
    have hwhole : some ((part.node.numbered 0).1, _) = some (node, state) := hread
    cases hwhole
    exact (part.node.numbered_loops 0).1
  | cons token rest => cases hread

/-! ### Languages of common patterns -/

variable {word text : Bytes}

lemma mem_language_pow {set : ByteSet} {count : Nat} :
    word ∈ set.language ^ count ↔ word.length = count ∧ ∀ b ∈ word, set.has b = true := by
  induction count generalizing word with
  | zero =>
    rw [pow_zero, Language.mem_one, List.length_eq_zero_iff, iff_self_and]
    rintro rfl b hb
    cases hb
  | succ count ih =>
    rw [pow_succ', Language.mem_mul]
    constructor
    · rintro ⟨_, ⟨b, hb, rfl⟩, back, hback, rfl⟩
      obtain ⟨hlength, hall⟩ := ih.mp hback
      exact ⟨by rw [List.singleton_append, List.length_cons, hlength], List.forall_mem_cons.mpr ⟨hb, hall⟩⟩
    · rintro ⟨hlength, hall⟩
      cases word with
      | nil => cases hlength
      | cons b back =>
        obtain ⟨hb, hall⟩ := List.forall_mem_cons.mp hall
        exact ⟨[b], ⟨b, hb, rfl⟩, back, ih.mpr ⟨Nat.succ.inj hlength, hall⟩, rfl⟩

lemma mem_language_kstar {set : ByteSet} : word ∈ set.language∗ ↔ ∀ b ∈ word, set.has b = true := by
  rw [Language.kstar_eq_iSup_pow, Language.mem_iSup]
  constructor
  · rintro ⟨count, hword⟩
    exact (mem_language_pow.mp hword).2
  · exact fun hall => ⟨word.length, mem_language_pow.mpr ⟨rfl, hall⟩⟩

namespace Node

/-- The bytes of a word in turn, and another pattern behind them. -/
def spelled (word : Bytes) (behind : Node) : Node :=
  word.foldr (fun b node => seq (one (.single b)) node) behind

lemma mem_language_spelled {behind : Node} :
    text ∈ (spelled word behind).language ↔ ∃ back ∈ behind.language, text = word ++ back := by
  induction word generalizing text with
  | nil => simp [spelled]
  | cons b word ih =>
    rw [spelled, List.foldr_cons, ← spelled, language, Language.mem_mul]
    constructor
    · rintro ⟨_, ⟨c, hc, rfl⟩, rest, hrest, rfl⟩
      obtain ⟨back, hback, rfl⟩ := ih.mp hrest
      obtain rfl : c = b := by simpa [ByteSet.has, ByteSet.single, SetItem.has] using hc
      exact ⟨back, hback, rfl⟩
    · rintro ⟨back, hback, rfl⟩
      exact ⟨[b], ⟨b, by simp [ByteSet.has, ByteSet.single, SetItem.has], rfl⟩, word ++ back,
        ih.mpr ⟨back, hback, rfl⟩, rfl⟩

lemma language_copies (body last : Node) (count : Nat) :
    (copies body last count).language = body.language ^ count * last.language := by
  induction count with
  | zero => rw [copies, pow_zero, one_mul]
  | succ count ih => rw [copies, language, ih, pow_succ', mul_assoc]

end Node

lemma has_range {low high : UInt8} (hlow : low < 128) (hhigh : high < 128) (b : UInt8) :
    (SetItem.range low high).has b = (decide (low ≤ b) && decide (b ≤ high)) := by
  have hbyte := b.toNat_lt
  rw [UInt8.lt_iff_toNat_lt, UInt8.toNat_ofNat] at hlow hhigh
  simp only [SetItem.has, signed, UInt8.lt_iff_toNat_lt, UInt8.le_iff_toNat_le, UInt8.toNat_ofNat]
  grind

end Chronicle.Pattern
