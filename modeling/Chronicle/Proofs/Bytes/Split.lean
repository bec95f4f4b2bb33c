import Chronicle.Bytes
import Mathlib.Tactic.Lemma

/-!
Taking a text apart at a separator, and the texts that come apart in one way only.

Parts that do not contain the separator can be read back, whether the separator stands behind each of
them or in front. A part that may contain it can be read back if its length is known.
-/

namespace Chronicle.Bytes

variable {separator : UInt8}

lemma splitOn_eq (separator : UInt8) (text : Bytes) :
    splitOn separator text = List.splitOn separator text := by
  induction text with
  | nil => rfl
  | cons b rest ih =>
    rw [splitOn, List.splitOn_cons_eq_if_modifyHead, ih]
    by_cases hb : b = separator
    · simp [hb]
    · rcases hparts : List.splitOn separator rest with _ | ⟨part, parts⟩
      · exact absurd hparts (List.splitOn_ne_nil separator rest)
      · simp [hb]

lemma not_mem_of_mem_splitOn {text part : Bytes} (h : part ∈ splitOn separator text) : separator ∉ part := by
  induction text generalizing part with
  | nil =>
    rw [splitOn, List.mem_singleton] at h
    rw [h]
    exact List.not_mem_nil
  | cons b rest ih =>
    rw [splitOn] at h
    split at h
    · rcases List.mem_cons.mp h with rfl | hmem
      · exact List.not_mem_nil
      · exact ih hmem
    next hb =>
    rcases hparts : splitOn separator rest with _ | ⟨first, parts⟩
    · exact absurd hparts (splitOn_ne_nil separator rest)
    rw [hparts] at h ih
    rcases List.mem_cons.mp h with rfl | hmem
    · have hfirst : separator ∉ first := ih (List.mem_cons_self ..)
      simpa [Ne.symm hb] using hfirst
    · exact ih (List.mem_cons_of_mem _ hmem)

lemma splitOn_flatMap_append {parts : List Bytes} (hparts : ∀ part ∈ parts, separator ∉ part)
    (rest : Bytes) :
    splitOn separator (parts.flatMap (· ++ [separator]) ++ rest) =
      parts ++ splitOn separator rest := by
  simp only [splitOn_eq]
  induction parts with
  | nil => rfl
  | cons part parts ih =>
    have hpart : separator ∉ part := hparts part (by simp)
    have hrest := ih fun part h => hparts part (by simp [h])
    rw [List.flatMap_cons, List.append_assoc, List.append_assoc, List.singleton_append,
      List.splitOn_append_cons_self_of_not_mem hpart, hrest, List.cons_append]

lemma splitOn_append_cons (front behind : Bytes) :
    ∃ first parts, splitOn separator (front ++ separator :: behind) =
      first :: parts ++ splitOn separator behind := by
  induction front with
  | nil => exact ⟨[], [], by simp [splitOn]⟩
  | cons b front ih =>
    obtain ⟨first, parts, hsplit⟩ := ih
    rw [List.cons_append, splitOn, hsplit]
    split
    · exact ⟨[], first :: parts, rfl⟩
    · exact ⟨b :: first, parts, rfl⟩

lemma splitOn_behind {part : Bytes} (hpart : separator ∉ part) (front : Bytes) :
    splitOn separator (front ++ separator :: part) = splitOn separator front ++ [part] := by
  have hlast : splitOn separator part = [part] := by
    rw [splitOn_eq, List.splitOn_eq_singleton hpart]
  induction front with
  | nil => simp [splitOn, hlast]
  | cons b front ih =>
    rw [List.cons_append, splitOn, splitOn, ih]
    split
    · rfl
    · rcases hparts : splitOn separator front with _ | ⟨first, parts⟩
      · exact absurd hparts (splitOn_ne_nil separator front)
      · rfl

lemma splitOn_getLast? (text : Bytes) :
    (splitOn separator text).getLast? = some (text.reverse.takeWhile (· != separator)).reverse := by
  by_cases hmem : separator ∈ text.reverse
  · obtain ⟨behind, front, htext, hbehind⟩ := List.eq_append_cons_of_mem hmem
    have htext' : text = front.reverse ++ separator :: behind.reverse := by
      rw [← List.reverse_reverse text, htext]
      simp
    have hwhile : (behind ++ separator :: front).takeWhile (· != separator) = behind := by
      rw [List.takeWhile_append_of_pos]
      · simp
      · intro b hb
        have hne : b ≠ separator := fun heq => hbehind (heq ▸ hb)
        simpa using hne
    obtain ⟨first, parts, hsplit⟩ :
        ∃ first parts, splitOn separator (front.reverse ++ separator :: behind.reverse) =
          first :: parts ++ splitOn separator behind.reverse := splitOn_append_cons _ _
    have hlast : splitOn separator behind.reverse = [behind.reverse] := by
      rw [splitOn_eq, List.splitOn_eq_singleton (by simpa using hbehind)]
    rw [htext, hwhile, htext', hsplit, hlast, List.getLast?_concat]
  · have hall : ∀ b ∈ text.reverse, (b != separator) = true := by
      intro b hb
      have hne : b ≠ separator := fun heq => hmem (heq ▸ hb)
      simpa using hne
    have hwhile : (text.reverse ++ []).takeWhile (· != separator) = text.reverse ++ [] :=
      List.takeWhile_append_of_pos hall
    rw [List.append_nil] at hwhile
    rw [hwhile, List.reverse_reverse, splitOn_eq,
      List.splitOn_eq_singleton (by simpa using hmem)]
    rfl

lemma splitOn_append_joinedAfter {part : Bytes} {parts : List Bytes} (hpart : separator ∉ part)
    (hparts : ∀ part ∈ parts, separator ∉ part) :
    splitOn separator (part ++ joinedAfter [separator] parts) = part :: parts := by
  simp only [splitOn_eq, joinedAfter]
  induction parts generalizing part with
  | nil => simp [List.splitOn_eq_singleton hpart]
  | cons next parts ih =>
    have hnext : separator ∉ next := hparts next (by simp)
    have hrest := ih hnext fun part h => hparts part (by simp [h])
    rw [List.flatMap_cons, List.singleton_append, List.cons_append,
      List.splitOn_append_cons_self_of_not_mem hpart, hrest]

/-- **Joined parts can be read back**: no two lists of them join to the same text. -/
theorem joinedAfter_injective {parts parts' : List Bytes}
    (hparts : ∀ part ∈ parts, separator ∉ part) (hparts' : ∀ part ∈ parts', separator ∉ part)
    (h : joinedAfter [separator] parts = joinedAfter [separator] parts') : parts = parts' := by
  have hsplit := splitOn_append_joinedAfter (List.not_mem_nil) hparts
  rw [h, splitOn_append_joinedAfter (List.not_mem_nil) hparts'] at hsplit
  exact (List.cons.inj hsplit).2.symm

lemma framed_inj {front part part' rest rest' : Bytes} (hlength : part.length = part'.length)
    (h : front ++ part ++ rest = front ++ part' ++ rest') : part = part' ∧ rest = rest' := by
  obtain ⟨hfront, hrest⟩ := List.append_inj h (by simp [hlength])
  exact ⟨List.append_cancel_left hfront, hrest⟩

end Chronicle.Bytes
