import Chronicle.Proofs.Bytes.Split
import Chronicle.Tail.NewLines
import Mathlib.Tactic.ByContra

/-!
Finished lines and an unfinished rest.

Every text comes apart in one way into lines with a line break behind each and a rest without one.
Text that is added goes on where the rest stopped: if a reader keeps the place where the rest starts,
nothing that was before it has to be looked at again.
-/

namespace Chronicle.Tail

open Chronicle.Bytes

/-- Lines with a line break behind each. -/
def terminated (lines : List Bytes) : Bytes := lines.flatMap (· ++ [newline])

lemma terminated_append (lines more : List Bytes) :
    terminated (lines ++ more) = terminated lines ++ terminated more := by
  simp only [terminated, List.flatMap_append]

/-- A text consists of these lines, each finished by a line break, and this unfinished rest. -/
structure Lined (text : Bytes) (lines : List Bytes) (rest : Bytes) : Prop where
  text_eq : text = terminated lines ++ rest
  lines_whole : ∀ line ∈ lines, newline ∉ line
  rest_open : newline ∉ rest

/-- The place just behind the last line break of a text, the start of a text without one. -/
structure BehindLastBreak (text : Bytes) (place : Nat) : Prop where
  le_length : place ≤ text.length
  break_before : place = 0 ∨ text[place - 1]? = some newline
  none_behind : newline ∉ text.drop place

lemma BehindLastBreak.le {text : Bytes} {place place' : Nat} (h : BehindLastBreak text place)
    (h' : BehindLastBreak text place') : place ≤ place' := by
  by_contra hlt
  rcases h.break_before with hzero | hbreak
  · omega
  · refine h'.none_behind ?_
    have hmem : (text.drop place')[place - 1 - place']? = some newline := by
      rw [List.getElem?_drop, show place' + (place - 1 - place') = place - 1 by omega, hbreak]
    exact List.mem_of_getElem? hmem

lemma BehindLastBreak.unique {text : Bytes} {place place' : Nat} (h : BehindLastBreak text place)
    (h' : BehindLastBreak text place') : place = place' :=
  Nat.le_antisymm (h.le h') (h'.le h)

lemma exists_lined (text : Bytes) : ∃ lines rest, Lined text lines rest := by
  induction text with
  | nil => exact ⟨[], [], by simp [terminated], by simp, by simp⟩
  | cons b text ih =>
    obtain ⟨lines, rest, rfl, hlines, hrest⟩ := ih
    by_cases hb : b = newline
    · exact ⟨[] :: lines, rest, by simp [terminated, hb], by simpa using hlines, hrest⟩
    · have hb' : newline ≠ b := fun h => hb h.symm
      rcases lines with _ | ⟨line, lines⟩
      · exact ⟨[], b :: rest, by simp [terminated], by simp, by simp [hb', hrest]⟩
      · exact ⟨(b :: line) :: lines, rest, by simp [terminated], by simpa [hb'] using hlines, hrest⟩

lemma Lined.splitOn_eq {text : Bytes} {lines : List Bytes} {rest : Bytes}
    (h : Lined text lines rest) : splitOn newline text = lines ++ [rest] := by
  rw [h.text_eq, terminated, splitOn_flatMap_append h.lines_whole, Bytes.splitOn_eq,
    List.splitOn_eq_singleton h.rest_open]

/-- **A text comes apart in one way.** -/
theorem Lined.unique {text : Bytes} {lines lines' : List Bytes} {rest rest' : Bytes}
    (h : Lined text lines rest) (h' : Lined text lines' rest') : lines = lines' ∧ rest = rest' := by
  have hsplit := h.splitOn_eq
  rw [h'.splitOn_eq] at hsplit
  obtain ⟨hlines, hrest⟩ := List.append_inj' hsplit rfl
  exact ⟨hlines.symm, (List.cons.inj hrest).1.symm⟩

lemma Lined.splitBlock_eq {text : Bytes} {lines : List Bytes} {rest : Bytes}
    (h : Lined text lines rest) : splitBlock text = (lines.filter (!·.isEmpty), rest) := by
  simp only [splitBlock, h.splitOn_eq, List.dropLast_concat, List.getLast?_concat,
    Option.getD_some]

lemma Lined.behind {lines more : List Bytes} {text rest : Bytes}
    (hlines : ∀ line ∈ lines, newline ∉ line) (h : Lined text more rest) :
    Lined (terminated lines ++ text) (lines ++ more) rest where
  text_eq := by rw [h.text_eq, terminated_append, List.append_assoc]
  lines_whole := by
    intro line hline
    rcases List.mem_append.mp hline with hline | hline
    · exact hlines line hline
    · exact h.lines_whole line hline
  rest_open := h.rest_open

lemma Lined.behindLastBreak {text : Bytes} {lines : List Bytes} {rest : Bytes}
    (h : Lined text lines rest) : BehindLastBreak text (text.length - rest.length) := by
  obtain ⟨rfl, -, hrest⟩ := h
  have hplace : (terminated lines ++ rest).length - rest.length = (terminated lines).length := by
    rw [List.length_append]
    omega
  rw [hplace]
  refine ⟨by simp, ?_, by simpa using hrest⟩
  rcases List.eq_nil_or_concat lines with rfl | ⟨lines, line, rfl⟩
  · exact Or.inl rfl
  · right
    have hfront : terminated (lines.concat line) = (terminated lines ++ line) ++ [newline] := by
      simp [terminated]
    rw [hfront, List.length_append, List.length_singleton, Nat.add_sub_cancel, List.append_assoc,
      List.getElem?_append_right (Nat.le_refl _)]
    simp

end Chronicle.Tail
