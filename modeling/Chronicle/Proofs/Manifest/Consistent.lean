import Chronicle.Proofs.Manifest.Joined
import Mathlib.Data.List.Chain

/-!
Which manifests are accepted.

Verifying goes through the entries once, with the end of the entry before in hand, and goes on behind an
entry whose chunk is missing or has the wrong size. It finds nothing exactly if the manifest is consistent,
which is said here of the list of entries as it stands. Chunks that no entry mentions are named as unusual
and make no other difference.
-/

namespace Chronicle.Manifest

/-- The place behind an entry. -/
def ChunkInfo.behind (info : ChunkInfo) : UInt64 := info.offset + info.size

/-- A manifest that says of itself and of the chunks what is the case. -/
structure Consistent (manifest : Manifest) (chunks : List Chunk) : Prop where
  hash_eq : manifest.manifestHash = manifest.computeHash
  root_ne_nil : manifest.rootHash ≠ []
  first : ∀ info ∈ manifest.chunks.head?, info.offset = 0
  next : manifest.chunks.IsChain fun info next => next.offset = info.behind
  last : manifest.chunks.getLast?.elim 0 ChunkInfo.behind = manifest.bundleSize
  size_le : ∀ info ∈ manifest.chunks, info.size ≤ manifest.chunkSize
  /-- the last chunk supplied under an index is there, and it is the right one -/
  supplied : ∀ info ∈ manifest.chunks, ∃ chunk, LastOf chunks info.index chunk ∧
    chunk.content.length = info.size.toNat ∧ Sha256.hex chunk.content = info.hash

variable {limit covered last : UInt64} {chunks others : List Chunk} {entries : List ChunkInfo}

/-! ### Entries in a row -/

lemma supplied_iff {info : ChunkInfo} {chunk : Chunk} :
    Supplied chunks info chunk ↔ LastOf chunks info.index chunk ∧
      chunk.content.length = info.size.toNat ∧ Sha256.hex chunk.content = info.hash := by
  rw [← chunkAt?_eq_some_iff]
  exact ⟨fun h => ⟨h.found, h.length_eq, h.hash_eq⟩, fun ⟨hfound, hlength, hhash⟩ => ⟨hfound, hlength, hhash⟩⟩

lemma covers_nil_iff : Covers limit chunks covered [] last ↔ covered = last := by
  constructor
  · rintro ⟨⟩
    rfl
  · rintro rfl
    exact .nil covered

lemma covers_cons_iff {info : ChunkInfo} {rest : List ChunkInfo} :
    Covers limit chunks covered (info :: rest) last ↔ info.offset = covered ∧ info.size ≤ limit ∧
      (∃ chunk, Supplied chunks info chunk) ∧ Covers limit chunks info.behind rest last := by
  constructor
  · rintro (_ | ⟨hoffset, hsize, hsupplied, hbehind⟩)
    exact ⟨hoffset, hsize, ⟨_, hsupplied⟩, hbehind⟩
  · rintro ⟨hoffset, hsize, ⟨chunk, hsupplied⟩, hbehind⟩
    exact .cons hoffset hsize hsupplied hbehind

lemma elim_getLast?_cons (info : ChunkInfo) (rest : List ChunkInfo) (place : UInt64) :
    (info :: rest).getLast?.elim place ChunkInfo.behind =
      rest.getLast?.elim info.behind ChunkInfo.behind := by
  rw [List.getLast?_cons]
  cases rest.getLast? <;> rfl

/-- **Entries cover a range** if each of them starts where the one before it ends. -/
theorem covers_iff_chain :
    Covers limit chunks covered entries last ↔
      (∀ info ∈ entries.head?, info.offset = covered) ∧
      (entries.IsChain fun info next => next.offset = info.behind) ∧
      entries.getLast?.elim covered ChunkInfo.behind = last ∧
      (∀ info ∈ entries, info.size ≤ limit) ∧
      ∀ info ∈ entries, ∃ chunk, Supplied chunks info chunk := by
  induction entries generalizing covered with
  | nil => simp [covers_nil_iff]
  | cons info rest ih =>
    rw [covers_cons_iff, ih, List.isChain_cons, elim_getLast?_cons, List.forall_mem_cons,
      List.forall_mem_cons]
    simp only [List.head?_cons, Option.mem_some_iff, forall_eq']
    constructor
    · rintro ⟨hoffset, hsize, hsupplied, hfirst, hchain, hlast, hsizes, hchunks⟩
      exact ⟨hoffset, ⟨hfirst, hchain⟩, hlast, ⟨hsize, hsizes⟩, hsupplied, hchunks⟩
    · rintro ⟨hoffset, ⟨hfirst, hchain⟩, hlast, ⟨hsize, hsizes⟩, hsupplied, hchunks⟩
      exact ⟨hoffset, hsize, hsupplied, hfirst, hchain, hlast, hsizes, hchunks⟩

lemma valid_iff_consistent {manifest : Manifest} :
    (verify manifest chunks).valid = true ↔ Consistent manifest chunks := by
  rw [valid_iff]
  constructor
  · rintro ⟨hhash, hcovers, hroot⟩
    obtain ⟨hfirst, hnext, hlast, hsize, hsupplied⟩ := covers_iff_chain.mp hcovers
    refine ⟨hhash.symm, hroot, hfirst, hnext, hlast, hsize, fun info hinfo => ?_⟩
    exact (hsupplied info hinfo).imp fun _ => supplied_iff.mp
  · intro h
    refine ⟨h.hash_eq.symm, covers_iff_chain.mpr ⟨h.first, h.next, h.last, h.size_le, ?_⟩, h.root_ne_nil⟩
    exact fun info hinfo => (h.supplied info hinfo).imp fun _ => supplied_iff.mpr

/-! ### Chunks that no entry mentions -/

lemma chunkDefects_congr {info : ChunkInfo}
    (h : chunkAt? others info.index = chunkAt? chunks info.index) :
    chunkDefects others info = chunkDefects chunks info := by
  rw [chunkDefects, h, chunkDefects]

lemma entryDefects_congr (h : ∀ info ∈ entries, chunkAt? others info.index = chunkAt? chunks info.index) :
    entryDefects limit others covered entries = entryDefects limit chunks covered entries := by
  induction entries generalizing covered with
  | nil => rfl
  | cons info rest ih =>
    obtain ⟨hinfo, hrest⟩ := List.forall_mem_cons.mp h
    simp only [entryDefects, ih hrest, chunkDefects_congr hinfo]

lemma defects_of_mentioned {manifest : Manifest}
    (h : mentioned manifest.chunks others = mentioned manifest.chunks chunks) :
    (verify manifest others).defects = (verify manifest chunks).defects := by
  simp only [verify, entryDefects_congr (chunkAt?_of_mentioned h)]

lemma extraChunks_eq (entries : List ChunkInfo) (chunks : List Chunk) :
    extraChunks entries chunks =
      (chunks.filter fun chunk => chunk.info.index ∉ entries.map (·.index)).map
        fun chunk => .extraChunk chunk.info.index := by
  rw [extraChunks]
  congr 2
  funext chunk
  rw [Bool.eq_iff_iff]
  simp

/-- **A manifest is accepted exactly if it is consistent.** One warning is given for each supplied chunk whose
index no entry has, in the order of supply, and one more behind them if there are no entries. Whether chunks
of this kind are there makes no difference to what is found wrong. -/
theorem verify_accepts_consistent (manifest : Manifest) (chunks : List Chunk) :
    ((verify manifest chunks).valid = true ↔ Consistent manifest chunks) ∧
      (verify manifest chunks).oddities =
        ((chunks.filter fun chunk => chunk.info.index ∉ manifest.chunks.map (·.index)).map
          fun chunk => .extraChunk chunk.info.index) ++
        (if manifest.chunks = [] then [.noChunks] else []) ∧
      ∀ others, mentioned manifest.chunks others = mentioned manifest.chunks chunks →
        (verify manifest others).valid = (verify manifest chunks).valid ∧
          (verify manifest others).defects = (verify manifest chunks).defects := by
  refine ⟨valid_iff_consistent, ?_, fun others hothers => ?_⟩
  · rw [verify, extraChunks_eq]
    simp only [List.isEmpty_iff]
  · have hdefects := defects_of_mentioned hothers
    exact ⟨by rw [Verification.valid, hdefects, Verification.valid], hdefects⟩

/-- Chunks in front, between and behind that no entry mentions. -/
def strayChunks : List Chunk :=
  .ofContent { index := 9 } [1] :: repeatedChunks ++ [.ofContent { index := 4 } [], .ofContent { index := 9 } [2]]

theorem verify_accepts_consistent_stray :
    mentioned repeatedManifest.chunks strayChunks = mentioned repeatedManifest.chunks repeatedChunks ∧
      (verify repeatedManifest strayChunks).valid = true ∧ Consistent repeatedManifest strayChunks ∧
      (verify repeatedManifest strayChunks).oddities = [.extraChunk 9, .extraChunk 4, .extraChunk 9] := by
  have hsame : mentioned repeatedManifest.chunks strayChunks =
      mentioned repeatedManifest.chunks repeatedChunks := by decide
  have hvalid : (verify repeatedManifest strayChunks).valid = true := by
    rw [((verify_accepts_consistent repeatedManifest repeatedChunks).2.2 strayChunks hsame).1]
    exact repeatedManifest_valid
  obtain ⟨hiff, hodd, -⟩ := verify_accepts_consistent repeatedManifest strayChunks
  refine ⟨hsame, hvalid, hiff.mp hvalid, ?_⟩
  rw [hodd]
  decide

end Chronicle.Manifest
