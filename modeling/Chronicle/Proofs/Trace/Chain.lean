import Chronicle.Proofs.Bytes.Split
import Chronicle.Proofs.Digest.Collision
import Chronicle.Trace.Hash
import Mathlib.Data.List.Basic
import Mathlib.Data.List.Induction

/-!
The chain of event hashes commits to all of them.

The chain is taken apart from its end. A link is the digest of the link before it and of one event
hash; the former always has 64 bytes, so the text can be read back. The start is the digest of a text
that is shorter than that of any link, and no chain ends where another has just begun.
-/

namespace Chronicle.Trace

open Chronicle.Sha256

/-- The end of the chain over event hashes. -/
def rolled (eventHashes : List Bytes) : Bytes := eventHashes.foldl roll genesisHash

/-- The texts hashed for the links behind a start. -/
def linkTexts (start : Bytes) : List Bytes → List Bytes
  | [] => []
  | eventHash :: rest => rollText start eventHash :: linkTexts (roll start eventHash) rest

/-- All texts hashed for a chain. -/
def chainTexts (eventHashes : List Bytes) : List Bytes :=
  genesisText :: linkTexts genesisHash eventHashes

theorem map_hex_chainTexts (eventHashes : List Bytes) :
    (chainTexts eventHashes).map hex = chain genesisHash eventHashes := by
  have hlinks : ∀ start, start :: (linkTexts start eventHashes).map hex =
      chain start eventHashes := by
    induction eventHashes with
    | nil => exact fun _ => rfl
    | cons eventHash rest ih => exact fun start => congrArg (start :: ·) (ih (roll start eventHash))
  exact hlinks genesisHash

lemma rolled_concat (eventHashes : List Bytes) (last : Bytes) :
    rolled (eventHashes ++ [last]) = roll (rolled eventHashes) last := by
  simp [rolled]

lemma linkTexts_concat (start : Bytes) (eventHashes : List Bytes) (last : Bytes) :
    linkTexts start (eventHashes ++ [last]) =
      linkTexts start eventHashes ++ [rollText (eventHashes.foldl roll start) last] := by
  induction eventHashes generalizing start with
  | nil => rfl
  | cons eventHash rest ih => simp [linkTexts, ih]

lemma chainTexts_concat (eventHashes : List Bytes) (last : Bytes) :
    chainTexts (eventHashes ++ [last]) =
      chainTexts eventHashes ++ [rollText (rolled eventHashes) last] := by
  rw [chainTexts, linkTexts_concat]
  rfl

lemma length_rolled (eventHashes : List Bytes) : (rolled eventHashes).length = 64 := by
  rcases List.eq_nil_or_concat' eventHashes with rfl | ⟨rest, last, rfl⟩
  · exact length_hex genesisText
  · rw [rolled_concat]
    exact length_hex _

lemma rollText_inj {current current' eventHash eventHash' : Bytes}
    (hlength : current.length = current'.length)
    (h : rollText current eventHash = rollText current' eventHash') :
    current = current' ∧ eventHash = eventHash' := by
  unfold rollText at h
  rw [List.append_assoc _ separator, List.append_assoc _ separator] at h
  obtain ⟨hcurrent, hevent⟩ := Bytes.framed_inj hlength h
  exact ⟨hcurrent, List.append_cancel_left hevent⟩

/-- The text of the start is too short for a link. -/
lemma genesisText_ne_rollText {current : Bytes} (hlength : current.length = 64)
    (eventHash : Bytes) : genesisText ≠ rollText current eventHash := by
  intro h
  have hlengths := congrArg List.length h
  have hgenesis : (utf8 "genesis").length = 7 := rfl
  simp only [genesisText, rollText, List.length_append, hgenesis, hlength] at hlengths
  omega

/-- **The end of the chain stands for all of it**, up to a collision. -/
theorem eq_of_rolled_eq {texts : List Bytes} (hsafe : ¬ Collision texts)
    {eventHashes eventHashes' : List Bytes} (htexts : chainTexts eventHashes ⊆ texts)
    (htexts' : chainTexts eventHashes' ⊆ texts) (h : rolled eventHashes = rolled eventHashes') :
    eventHashes = eventHashes' := by
  induction eventHashes using List.reverseRecOn generalizing eventHashes' with
  | nil =>
    rcases List.eq_nil_or_concat' eventHashes' with rfl | ⟨rest', last', rfl⟩
    · rfl
    · rw [rolled_concat] at h
      rw [chainTexts_concat] at htexts'
      have heq := eq_of_hex_eq hsafe (htexts List.mem_cons_self)
        (htexts' (List.mem_append_right _ List.mem_cons_self)) h
      exact absurd heq (genesisText_ne_rollText (length_rolled rest') last')
  | append_singleton rest last ih =>
    rw [rolled_concat] at h
    rw [chainTexts_concat] at htexts
    have hlink := htexts (List.mem_append_right _ List.mem_cons_self)
    have hfront : chainTexts rest ⊆ texts := fun _ hmem => htexts (List.mem_append_left _ hmem)
    rcases List.eq_nil_or_concat' eventHashes' with rfl | ⟨rest', last', rfl⟩
    · have heq := eq_of_hex_eq hsafe (htexts' List.mem_cons_self) hlink h.symm
      exact absurd heq (genesisText_ne_rollText (length_rolled rest) last)
    · rw [rolled_concat] at h
      rw [chainTexts_concat] at htexts'
      have hlink' := htexts' (List.mem_append_right _ List.mem_cons_self)
      have hfront' : chainTexts rest' ⊆ texts := fun _ hmem =>
        htexts' (List.mem_append_left _ hmem)
      have heq := eq_of_hex_eq hsafe hlink hlink' h
      obtain ⟨hrolled, rfl⟩ :=
        rollText_inj ((length_rolled rest).trans (length_rolled rest').symm) heq
      rw [ih hfront hfront' hrolled]

end Chronicle.Trace
