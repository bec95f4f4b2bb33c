import Chronicle.Proofs.Trace.Chain

/-!
The root hash commits to all event hashes and all span hashes.

It is the digest of the end of the chain and of the span hashes behind it, each after a separator. The
end of the chain has 64 bytes whatever the events, so the text comes apart there, and what is behind it
comes apart at the separators if no span hash contains one.
-/

namespace Chronicle.Trace

open Chronicle.Sha256

/-- The byte between two hashes. -/
def bar : UInt8 := 124

lemma separator_eq : separator = [bar] := rfl

/-- All texts hashed for the root hash over event hashes and span hashes. -/
def rootTexts (eventHashes spanHashes : List Bytes) : List Bytes :=
  chainTexts eventHashes ++ [rootText (rolled eventHashes) spanHashes]

/-- Their digests are the links of the chain and the root hash. -/
theorem map_hex_rootTexts (eventHashes spanHashes : List Bytes) :
    (rootTexts eventHashes spanHashes).map hex =
      chain genesisHash eventHashes ++ [rootHash (rolled eventHashes) spanHashes] := by
  rw [rootTexts, List.map_append, map_hex_chainTexts]
  rfl

lemma rootText_inj {rollingHash rollingHash' : Bytes} {spanHashes spanHashes' : List Bytes}
    (hlength : rollingHash.length = rollingHash'.length)
    (hspans : ∀ hash ∈ spanHashes, bar ∉ hash) (hspans' : ∀ hash ∈ spanHashes', bar ∉ hash)
    (h : rootText rollingHash spanHashes = rootText rollingHash' spanHashes') :
    rollingHash = rollingHash' ∧ spanHashes = spanHashes' := by
  unfold rootText at h
  obtain ⟨hrolling, hjoined⟩ := Bytes.framed_inj hlength h
  rw [joinHashes, joinHashes, separator_eq] at hjoined
  exact ⟨hrolling, Bytes.joinedAfter_injective hspans hspans' hjoined⟩

/-- **The root hash stands for the whole trace**, up to a collision: where two traces have the same
root hash they have the same event hashes and span hashes, or two different ones of the texts hashed
for the two root hashes have the same digest. -/
theorem rootHash_binds {eventHashes eventHashes' spanHashes spanHashes' : List Bytes}
    (hspans : ∀ hash ∈ spanHashes, bar ∉ hash) (hspans' : ∀ hash ∈ spanHashes', bar ∉ hash)
    (h : rootHash (rolled eventHashes) spanHashes = rootHash (rolled eventHashes') spanHashes') :
    (eventHashes = eventHashes' ∧ spanHashes = spanHashes') ∨
      Collision (rootTexts eventHashes spanHashes ++ rootTexts eventHashes' spanHashes') := by
  by_cases hsafe : Collision (rootTexts eventHashes spanHashes ++ rootTexts eventHashes' spanHashes')
  · exact Or.inr hsafe
  left
  have hroot : rootText (rolled eventHashes) spanHashes = rootText (rolled eventHashes') spanHashes' :=
    eq_of_hex_eq hsafe (by simp [rootTexts]) (by simp [rootTexts]) h
  have hlength : (rolled eventHashes).length = (rolled eventHashes').length :=
    (length_rolled eventHashes).trans (length_rolled eventHashes').symm
  obtain ⟨hrolled, hjoined⟩ := rootText_inj hlength hspans hspans' hroot
  have hevents : eventHashes = eventHashes' :=
    eq_of_rolled_eq hsafe (fun _ hmem => by simp [rootTexts, hmem])
      (fun _ hmem => by simp [rootTexts, hmem]) hrolled
  exact ⟨hevents, hjoined⟩

/-- An event hash that contains the separator, and one that is empty. -/
def oddEventHashes : List Bytes := [[124, 97], []]

/-- Span hashes, an empty one among them. -/
def oddSpanHashes : List Bytes := [[97], [], [98, 99]]

theorem rootHash_binds_oddHashes :
    (∀ hash ∈ oddSpanHashes, bar ∉ hash) ∧
      ((oddEventHashes = oddEventHashes ∧ oddSpanHashes = oddSpanHashes) ∨
        Collision (rootTexts oddEventHashes oddSpanHashes ++
          rootTexts oddEventHashes oddSpanHashes)) := by
  have hspans : ∀ hash ∈ oddSpanHashes, bar ∉ hash := by decide
  exact ⟨hspans, rootHash_binds hspans hspans rfl⟩

end Chronicle.Trace
