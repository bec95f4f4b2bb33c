import Chronicle.Manifest.Verify
import Mathlib.Algebra.Group.Nat.Defs
import Mathlib.Logic.Basic
import Mathlib.Tactic.Lemma

/-!
What a manifest without defects says.

Its hash is its own, it names a root hash, and its entries follow one another from the start of the
bundle to its end: each starts where the one before it ends, is not larger than allowed, and has a chunk
of its size and hash. The places are 64-bit words, and a sum of sizes that does not fit wraps around.
-/

namespace Chronicle.Manifest

/-- The chunk of an entry has the size and the hash that the entry names. -/
structure Supplied (chunks : List Chunk) (info : ChunkInfo) (chunk : Chunk) : Prop where
  found : chunkAt? chunks info.index = some chunk
  length_eq : chunk.content.length = info.size.toNat
  hash_eq : Sha256.hex chunk.content = info.hash

/-- Entries that follow one another from a place to a place, each with its chunk. -/
inductive Covers (limit : UInt64) (chunks : List Chunk) : UInt64 → List ChunkInfo → UInt64 → Prop
  | nil (place : UInt64) : Covers limit chunks place [] place
  | cons {covered : UInt64} {info : ChunkInfo} {rest : List ChunkInfo} {last : UInt64}
      {chunk : Chunk} (offset_eq : info.offset = covered) (size_le : info.size ≤ limit)
      (supplied : Supplied chunks info chunk)
      (behind : Covers limit chunks (info.offset + info.size) rest last) :
      Covers limit chunks covered (info :: rest) last

variable {limit covered : UInt64} {chunks : List Chunk}

lemma placeDefects_eq_nil {info : ChunkInfo} :
    placeDefects limit covered info = [] ↔ info.size ≤ limit ∧ info.offset = covered := by
  simp [placeDefects]

lemma chunkDefects_eq_nil {info : ChunkInfo} :
    chunkDefects chunks info = [] ↔ ∃ chunk, Supplied chunks info chunk := by
  unfold chunkDefects
  rcases hfound : chunkAt? chunks info.index with _ | chunk
  · simp only [reduceCtorEq, false_iff, not_exists]
    rintro chunk ⟨hchunk, -, -⟩
    rw [hfound] at hchunk
    cases hchunk
  constructor
  · intro h
    dsimp only at h
    split at h
    · cases h
    next hlength =>
      split at h
      · next hagree => exact ⟨chunk, hfound, not_not.mp hlength, Digest.eq_of_agree hagree⟩
      · cases h
  · rintro ⟨chunk', hchunk, hlength, hhash⟩
    obtain rfl : chunk = chunk' := Option.some.inj (hfound.symm.trans hchunk)
    simp [hlength, hhash]

lemma covers_of_entryDefects {entries : List ChunkInfo}
    (h : (entryDefects limit chunks covered entries).1 = []) :
    Covers limit chunks covered entries (entryDefects limit chunks covered entries).2 := by
  induction entries generalizing covered with
  | nil => exact .nil covered
  | cons info rest ih =>
    simp only [entryDefects, List.append_eq_nil_iff] at h
    obtain ⟨⟨hplace, hchunk⟩, hrest⟩ := h
    obtain ⟨hsize, hoffset⟩ := placeDefects_eq_nil.mp hplace
    obtain ⟨chunk, hsupplied⟩ := chunkDefects_eq_nil.mp hchunk
    exact .cons hoffset hsize hsupplied (ih hrest)

lemma Covers.entryDefects_eq {entries : List ChunkInfo} {last : UInt64}
    (h : Covers limit chunks covered entries last) :
    entryDefects limit chunks covered entries = ([], last) := by
  induction h with
  | nil place => rfl
  | cons hoffset hsize hsupplied _ ih =>
    have hplace := placeDefects_eq_nil.mpr ⟨hsize, hoffset⟩
    have hchunk := chunkDefects_eq_nil.mpr ⟨_, hsupplied⟩
    simp [entryDefects, ih, hplace, hchunk]

structure Verified (manifest : Manifest) (chunks : List Chunk) : Prop where
  hash_eq : manifest.computeHash = manifest.manifestHash
  covers : Covers manifest.chunkSize chunks 0 manifest.chunks manifest.bundleSize
  root_ne_nil : manifest.rootHash ≠ []

/-- **A manifest is found valid if and only if all of this holds.** -/
theorem valid_iff {manifest : Manifest} :
    (verify manifest chunks).valid = true ↔ Verified manifest chunks := by
  simp only [Verification.valid, verify, List.isEmpty_iff, List.append_eq_nil_iff]
  constructor
  · rintro ⟨⟨⟨hhash, hentries⟩, hend⟩, hroot⟩
    have hcovers := covers_of_entryDefects hentries
    refine ⟨?_, ?_, ?_⟩
    · unfold hashDefects at hhash
      dsimp only at hhash
      split at hhash
      · next hagree => exact Digest.eq_of_agree hagree
      · cases hhash
    · split at hend
      · cases hend
      · next hlast => rwa [not_not.mp hlast] at hcovers
    · rintro hempty
      simp [hempty] at hroot
  · rintro ⟨hhash, hcovers, hroot⟩
    rw [hcovers.entryDefects_eq]
    simp [hashDefects, hhash, hroot]

/-! ### Sizes -/

/-- How many bytes entries name, as a number. -/
def totalSize : List ChunkInfo → Nat
  | [] => 0
  | info :: rest => info.size.toNat + totalSize rest

lemma totalSize_append (front back : List ChunkInfo) :
    totalSize (front ++ back) = totalSize front + totalSize back := by
  induction front with
  | nil => rw [List.nil_append, totalSize, Nat.zero_add]
  | cons info rest ih => rw [List.cons_append, totalSize, totalSize, ih, Nat.add_assoc]

lemma totalSize_perm {entries entries' : List ChunkInfo} (h : entries.Perm entries') :
    totalSize entries = totalSize entries' := by
  induction h with
  | nil => rfl
  | cons info _ ih => rw [totalSize, totalSize, ih]
  | swap info info' rest =>
    simp only [totalSize]
    omega
  | trans _ _ ih ih' => exact ih.trans ih'

/-- Where the sizes fit into a word altogether, no place wraps around. -/
lemma Covers.toNat_last {entries : List ChunkInfo} {last : UInt64}
    (h : Covers limit chunks covered entries last)
    (hfits : covered.toNat + totalSize entries < 2 ^ 64) :
    last.toNat = covered.toNat + totalSize entries := by
  induction h with
  | nil place => simp [totalSize]
  | @cons covered info rest last _ hoffset _ _ _ ih =>
    subst hoffset
    rw [totalSize] at hfits ⊢
    have hnext : (info.offset + info.size).toNat = info.offset.toNat + info.size.toNat := by
      rw [UInt64.toNat_add, Nat.mod_eq_of_lt (by omega)]
    rw [ih (by omega), hnext, Nat.add_assoc]

lemma Covers.append {front back : List ChunkInfo} {last : UInt64}
    (h : Covers limit chunks covered (front ++ back) last) :
    ∃ middle, Covers limit chunks covered front middle ∧ Covers limit chunks middle back last := by
  induction front generalizing covered with
  | nil => exact ⟨covered, .nil covered, h⟩
  | cons info rest ih =>
    cases h with
    | cons hoffset hsize hsupplied hbehind =>
      obtain ⟨middle, hfront, hback⟩ := ih hbehind
      exact ⟨middle, .cons hoffset hsize hsupplied hfront, hback⟩

lemma Covers.supplied {entries : List ChunkInfo} {last : UInt64}
    (h : Covers limit chunks covered entries last) {info : ChunkInfo} (hinfo : info ∈ entries) :
    ∃ chunk, Supplied chunks info chunk := by
  induction h with
  | nil place => cases hinfo
  | cons _ _ hsupplied _ ih =>
    rcases List.mem_cons.mp hinfo with rfl | hinfo
    · exact ⟨_, hsupplied⟩
    · exact ih hinfo

end Chronicle.Manifest
