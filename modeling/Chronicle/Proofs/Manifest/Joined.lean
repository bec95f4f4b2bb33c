import Chronicle.Manifest.Build
import Chronicle.Manifest.Reassemble
import Chronicle.Proofs.Manifest.Supply
import Chronicle.Proofs.Manifest.Verified

/-!
What is joined is what was verified, where both go the same way.

Verifying goes through the entries as they are listed, joining goes through them by their indices. How
many bytes there are does not depend on the way. Where a chunk is found in the joined content does: the
place that an entry names is the place where its chunk ends up if the indices of the list never fall.
-/

namespace Chronicle.Manifest

/-- The content of the chunk of an index, nothing where there is no chunk. -/
def contentAt (chunks : List Chunk) (index : UInt32) : Bytes :=
  ((chunkAt? chunks index).map (·.content)).getD []

/-- The contents of the chunks of entries, one behind the other. -/
def joined (chunks : List Chunk) (entries : List ChunkInfo) : Bytes :=
  entries.flatMap fun info => contentAt chunks info.index

variable {chunks : List Chunk}

lemma Supplied.contentAt_eq {info : ChunkInfo} {chunk : Chunk} (h : Supplied chunks info chunk) :
    contentAt chunks info.index = chunk.content := by
  rw [contentAt, h.found]
  rfl

/-! ### Joining -/

/-- The chunk of an entry is there and has its hash. -/
def Met (chunks : List Chunk) (info : ChunkInfo) : Prop :=
  ∃ chunk, chunkAt? chunks info.index = some chunk ∧ Sha256.hex chunk.content = info.hash

lemma Supplied.met {info : ChunkInfo} {chunk : Chunk} (h : Supplied chunks info chunk) :
    Met chunks info :=
  ⟨chunk, h.found, h.hash_eq⟩

/-- What is wrong with an index whose chunk does not meet an entry. -/
def faultAt (chunks : List Chunk) (index : UInt32) : JoinFault :=
  if ∃ chunk ∈ chunks, chunk.info.index = index then .chunkMismatch index else .missing index

lemma piece_of_met {info : ChunkInfo} (h : Met chunks info) :
    piece chunks info = .ok (contentAt chunks info.index) := by
  obtain ⟨chunk, hfound, hhash⟩ := h
  simp [piece, contentAt, hfound, hhash]

lemma piece_of_not_met {info : ChunkInfo} (h : ¬ Met chunks info) :
    piece chunks info = .error (faultAt chunks info.index) := by
  unfold piece faultAt
  rcases hfound : chunkAt? chunks info.index with _ | chunk
  · have hnone : ¬ ∃ chunk ∈ chunks, chunk.info.index = info.index := by
      rintro ⟨chunk, hchunk, hindex⟩
      exact chunkAt?_eq_none_iff.mp hfound chunk hchunk hindex
    rw [if_neg hnone]
  · have hhash : ¬ Digest.agree (Sha256.hex chunk.content) info.hash = true :=
      fun hagree => h ⟨chunk, hfound, Digest.eq_of_agree hagree⟩
    have hsome : ∃ chunk ∈ chunks, chunk.info.index = info.index :=
      ⟨chunk, (chunkAt?_eq_some_iff.mp hfound).mem⟩
    rw [if_pos hsome]
    exact if_neg hhash

/-- **Going through entries** stops at the first one that is not met. -/
theorem pieces_cases (chunks : List Chunk) (entries : List ChunkInfo) :
    (∀ info ∈ entries, Met chunks info) ∧ pieces chunks entries = .ok (joined chunks entries) ∨
      ∃ front info back, entries = front ++ info :: back ∧ (∀ before ∈ front, Met chunks before) ∧
        ¬ Met chunks info ∧ pieces chunks entries = .error (faultAt chunks info.index) := by
  induction entries with
  | nil => exact Or.inl ⟨fun _ hinfo => absurd hinfo List.not_mem_nil, rfl⟩
  | cons info rest ih =>
    by_cases hmet : Met chunks info
    · rcases ih with ⟨hrest, hpieces⟩ | ⟨front, other, back, hsplit, hfront, hnot, hpieces⟩
      · refine Or.inl ⟨List.forall_mem_cons.mpr ⟨hmet, hrest⟩, ?_⟩
        rw [pieces, piece_of_met hmet, hpieces]
        rfl
      · refine Or.inr ⟨info :: front, other, back, by rw [hsplit]; rfl,
          List.forall_mem_cons.mpr ⟨hmet, hfront⟩, hnot, ?_⟩
        rw [pieces, piece_of_met hmet, hpieces]
        rfl
    · refine Or.inr ⟨[], info, rest, rfl, fun _ hbefore => absurd hbefore List.not_mem_nil, hmet, ?_⟩
      rw [pieces, piece_of_not_met hmet]
      rfl

lemma joined_of_pieces {entries : List ChunkInfo} {content : Bytes}
    (h : pieces chunks entries = .ok content) : joined chunks entries = content := by
  rcases pieces_cases chunks entries with ⟨-, hpieces⟩ | ⟨_, _, _, -, -, -, hpieces⟩
  · exact Except.ok.inj (hpieces.symm.trans h)
  · rw [hpieces] at h
    cases h

lemma pieces_eq {entries : List ChunkInfo}
    (h : ∀ info ∈ entries, ∃ chunk, Supplied chunks info chunk) :
    pieces chunks entries = .ok (joined chunks entries) := by
  rcases pieces_cases chunks entries with ⟨-, hpieces⟩ | ⟨front, info, back, rfl, -, hnot, -⟩
  · exact hpieces
  · obtain ⟨chunk, hchunk⟩ := h info (List.mem_append_right _ List.mem_cons_self)
    exact absurd hchunk.met hnot

lemma joined_of_reassemble {manifest : Manifest} {content : Bytes}
    (h : reassemble manifest chunks = .ok content) :
    joined chunks (byIndex manifest.chunks) = content := by
  rcases hpieces : pieces chunks (byIndex manifest.chunks) with fault | whole
  · rw [reassemble, hpieces] at h
    cases h
  rw [joined_of_pieces hpieces]
  simp only [reassemble, hpieces, bind, Except.bind] at h
  split at h
  · exact Except.ok.inj h
  · cases h

lemma reassemble_eq {manifest : Manifest}
    (h : ∀ info ∈ manifest.chunks, ∃ chunk, Supplied chunks info chunk)
    (hhash : Sha256.hex (joined chunks (byIndex manifest.chunks)) = manifest.bundleHash) :
    reassemble manifest chunks = .ok (joined chunks (byIndex manifest.chunks)) := by
  have hpieces : pieces chunks (byIndex manifest.chunks) =
      .ok (joined chunks (byIndex manifest.chunks)) :=
    pieces_eq fun info hinfo => h info ((sortBy_perm _ _).mem_iff.mp hinfo)
  simp only [reassemble, hpieces, bind, Except.bind, hhash, Digest.agree_self, if_true]
  rfl

lemma byIndex_eq_self {entries : List ChunkInfo} (h : entries.Pairwise (·.index ≤ ·.index)) :
    byIndex entries = entries :=
  sortBy_key_eq_self ChunkInfo.index h

lemma length_joined {entries : List ChunkInfo}
    (h : ∀ info ∈ entries, ∃ chunk, Supplied chunks info chunk) :
    (joined chunks entries).length = totalSize entries := by
  induction entries with
  | nil => rfl
  | cons info rest ih =>
    obtain ⟨chunk, hchunk⟩ := h info List.mem_cons_self
    have hrest := ih fun info hinfo => h info (List.mem_cons_of_mem _ hinfo)
    rw [joined] at hrest
    simp only [joined, totalSize, List.flatMap_cons, List.length_append, hchunk.contentAt_eq,
      hchunk.length_eq, hrest]

/-! ### Places -/

/-- Behind the entries before it, an entry is where its chunk is joined. -/
lemma Covers.joined_at {limit : UInt64} {front back : List ChunkInfo} {info : ChunkInfo}
    {last : UInt64} (h : Covers limit chunks 0 (front ++ info :: back) last)
    (hfits : totalSize (front ++ info :: back) < 2 ^ 64) :
    ((joined chunks (front ++ info :: back)).drop info.offset.toNat).take info.size.toNat =
      contentAt chunks info.index := by
  obtain ⟨middle, hfront, hback⟩ := h.append
  have hsum : totalSize (front ++ info :: back) =
      totalSize front + (info.size.toNat + totalSize back) := by
    rw [totalSize_append, totalSize]
  have hplace : middle.toNat = (joined chunks front).length := by
    rw [length_joined fun entry hentry => hfront.supplied hentry]
    have hlast := hfront.toNat_last (by rw [UInt64.toNat_zero]; omega)
    rwa [UInt64.toNat_zero, Nat.zero_add] at hlast
  cases hback with
  | cons hoffset _ hsupplied _ =>
    have hsplit : joined chunks (front ++ info :: back) =
        joined chunks front ++ (contentAt chunks info.index ++ joined chunks back) := by
      simp [joined]
    rw [hsplit, hoffset, hplace, List.drop_left, ← hsupplied.length_eq, ← hsupplied.contentAt_eq,
      List.take_left]

/-- **What is joined is what was verified.** A manifest is valid with these chunks, and they join to a
content, which fits into memory. Then the content has the size of the bundle. If moreover the indices of
the entries never fall from one to the next, each entry names the place of its chunk in the content. -/
theorem joined_as_verified {manifest : Manifest} {content : Bytes}
    (valid : (verify manifest chunks).valid = true)
    (joins : reassemble manifest chunks = .ok content) (fits : content.length < 2 ^ 64) :
    content.length = manifest.bundleSize.toNat ∧
      (manifest.chunks.Pairwise (·.index ≤ ·.index) →
        ∀ info ∈ manifest.chunks, ∃ chunk, chunkAt? chunks info.index = some chunk ∧
          (content.drop info.offset.toNat).take info.size.toNat = chunk.content) := by
  obtain ⟨-, hcovers, -⟩ := valid_iff.mp valid
  obtain rfl := joined_of_reassemble joins
  have hperm : (byIndex manifest.chunks).Perm manifest.chunks := sortBy_perm _ _
  have hlength : (joined chunks (byIndex manifest.chunks)).length = totalSize manifest.chunks := by
    rw [length_joined fun info hinfo => hcovers.supplied (hperm.mem_iff.mp hinfo),
      totalSize_perm hperm]
  rw [hlength] at fits
  constructor
  · have hlast := hcovers.toNat_last (by rwa [UInt64.toNat_zero, Nat.zero_add])
    rw [hlength, hlast, UInt64.toNat_zero, Nat.zero_add]
  · intro hordered info hinfo
    obtain ⟨chunk, hchunk⟩ := hcovers.supplied hinfo
    refine ⟨chunk, hchunk.found, ?_⟩
    obtain ⟨front, back, hentries⟩ := List.append_of_mem hinfo
    rw [byIndex_eq_self hordered, ← hchunk.contentAt_eq]
    rw [hentries] at hcovers fits ⊢
    exact hcovers.joined_at fits

lemma computeHash_sealed (manifest : Manifest) :
    (sealed manifest).computeHash = (sealed manifest).manifestHash := rfl

/-- Two entries for one chunk, and one for a chunk of two bytes. -/
def repeatedEntries : List ChunkInfo :=
  [{ index := 3, hash := Sha256.hex [97], offset := 0, size := 1 },
   { index := 3, hash := Sha256.hex [97], offset := 1, size := 1 },
   { index := 7, hash := Sha256.hex [98, 99], offset := 2, size := 2 }]

/-- Of the two chunks with index 3 the last one counts. -/
def repeatedChunks : List Chunk :=
  [.ofContent { index := 7, size := 2 } [98, 99], .ofContent { index := 3, size := 1 } [100],
   .ofContent { index := 3, size := 1 } [97]]

def repeatedManifest : Manifest :=
  sealed { rootHash := [114], bundleHash := Sha256.hex [97, 97, 98, 99], bundleSize := 4, chunkSize := 2
           chunks := repeatedEntries }

lemma repeatedManifest_valid : (verify repeatedManifest repeatedChunks).valid = true := by
  have hentries : entryDefects 2 repeatedChunks 0 repeatedEntries = ([], 4) := by
    simp [entryDefects, placeDefects, chunkDefects, chunkAt?, repeatedChunks, repeatedEntries,
      Chunk.ofContent, Chunk.content]
  have hcovers := covers_of_entryDefects (congrArg Prod.fst hentries)
  rw [hentries] at hcovers
  exact valid_iff.mpr ⟨computeHash_sealed _, hcovers, by decide⟩

lemma repeatedManifest_joins :
    reassemble repeatedManifest repeatedChunks = .ok [97, 97, 98, 99] := by
  have hjoined : joined repeatedChunks (byIndex repeatedManifest.chunks) = [97, 97, 98, 99] := by
    decide
  rw [← hjoined]
  refine reassemble_eq (fun _ hinfo => ?_) (by rw [hjoined]; rfl)
  exact (valid_iff.mp repeatedManifest_valid).covers.supplied hinfo

theorem joined_as_verified_repeated :
    (verify repeatedManifest repeatedChunks).valid = true ∧
      reassemble repeatedManifest repeatedChunks = .ok [97, 97, 98, 99] ∧
      repeatedManifest.bundleSize.toNat = 4 ∧
      ∀ info ∈ repeatedManifest.chunks, ∃ chunk, chunkAt? repeatedChunks info.index = some chunk ∧
        (([97, 97, 98, 99] : Bytes).drop info.offset.toNat).take info.size.toNat = chunk.content := by
  obtain ⟨hlength, hplaces⟩ :=
    joined_as_verified repeatedManifest_valid repeatedManifest_joins (by decide)
  exact ⟨repeatedManifest_valid, repeatedManifest_joins, hlength.symm, hplaces (by decide)⟩

/-! ### Entries against the order of their indices -/

/-- The first byte is the chunk of the greater index. -/
def swappedManifest : Manifest :=
  sealed
    { rootHash := [114], bundleHash := Sha256.hex [97, 98], bundleSize := 2
      chunks :=
        [{ index := 1, hash := Sha256.hex [98], offset := 0, size := 1 },
         { index := 0, hash := Sha256.hex [97], offset := 1, size := 1 }] }

def swappedChunks : List Chunk :=
  [.ofContent { index := 0, size := 1 } [97], .ofContent { index := 1, size := 1 } [98]]

/-- Verifying finds nothing wrong, and the joined content has the chunks in the other order. -/
theorem swapped_entries_misplaced :
    (verify swappedManifest swappedChunks).valid = true ∧
      reassemble swappedManifest swappedChunks = .ok [97, 98] ∧
      ∀ info ∈ swappedManifest.chunks, ∀ chunk, chunkAt? swappedChunks info.index = some chunk →
        (([97, 98] : Bytes).drop info.offset.toNat).take info.size.toNat ≠ chunk.content := by
  have hvalid : (verify swappedManifest swappedChunks).valid = true := by
    have hentries : entryDefects defaultChunkSize swappedChunks 0 swappedManifest.chunks = ([], 2) := by
      simp [entryDefects, placeDefects, chunkDefects, chunkAt?, swappedChunks, swappedManifest, sealed,
        Chunk.ofContent, Chunk.content, defaultChunkSize]
    have hcovers := covers_of_entryDefects (congrArg Prod.fst hentries)
    rw [hentries] at hcovers
    exact valid_iff.mpr ⟨computeHash_sealed _, hcovers, by decide⟩
  have hjoined : joined swappedChunks (byIndex swappedManifest.chunks) = [97, 98] := by decide
  refine ⟨hvalid, ?_, ?_⟩
  · rw [← hjoined]
    refine reassemble_eq (fun _ hinfo => ?_) (by rw [hjoined]; rfl)
    exact (valid_iff.mp hvalid).covers.supplied hinfo
  · intro info hinfo chunk hchunk
    simp only [swappedManifest, sealed, List.mem_cons, List.not_mem_nil, or_false] at hinfo
    rcases hinfo with rfl | rfl <;> obtain rfl := Option.some.inj hchunk <;> decide

end Chronicle.Manifest
