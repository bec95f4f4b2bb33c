import Chronicle.Proofs.Manifest.Cutting
import Chronicle.Proofs.Manifest.Joined
import Chronicle.Trace.Recording

/-!
Cutting a bundle loses nothing.

The chunks that a manifest is built with are consecutive pieces of the content. Each is found under its
own index, so the manifest verifies against them, and joining them gives the content back.
-/

namespace Chronicle.Manifest

open Chronicle.Trace (Run Bundle Fault)

/-- Chunks of this size, except that the last one may be smaller, that make up a content. -/
structure CutUp (chunks : List Chunk) (size : Nat) (content : Bytes) : Prop where
  index_eq : ∀ i (h : i < chunks.length), chunks[i].info.index.toNat = i
  offset_eq : ∀ i (h : i < chunks.length), chunks[i].info.offset.toNat = i * size
  size_pos : ∀ chunk ∈ chunks, 1 ≤ chunk.info.size.toNat
  size_le : ∀ chunk ∈ chunks, chunk.info.size.toNat ≤ size
  joined_eq : chunks.flatMap (·.content) = content

/-- The chunks of a content. -/
def chunksOf (options : Options) (content : Bytes) : List Chunk :=
  (cut options content).map fun info => .ofRange info content

namespace Countable

variable {options : Options} {content : Bytes} {i : Nat}

lemma chunksOf_eq (h : Countable options content) :
    chunksOf options content =
      (List.range (chunkCount options.chunkSize.toNat content.length)).map fun i =>
        .ofRange (entryOf options content i) content := by
  rw [chunksOf, cut_eq h.size_pos, List.map_map]
  rfl

lemma content_ofRange (h : Countable options content)
    (hi : i < chunkCount options.chunkSize.toNat content.length) :
    (Chunk.ofRange (entryOf options content i) content).content =
      bytesOf options.chunkSize.toNat content i := by
  change (content.drop (UInt64.ofNat (i * options.chunkSize.toNat)).toNat).take
    (entryOf options content i).size.toNat = _
  rw [h.toNat_offset (Nat.le_of_lt hi), h.toNat_size, ← List.length_drop, ← List.take_take,
    List.take_length]
  rfl

lemma chunkAt?_eq (h : Countable options content)
    (hi : i < chunkCount options.chunkSize.toNat content.length) :
    chunkAt? (chunksOf options content) (entryOf options content i).index =
      some (.ofRange (entryOf options content i) content) := by
  rcases hfound : chunkAt? (chunksOf options content) (entryOf options content i).index with
    _ | chunk
  · have hnone := List.find?_eq_none.mp hfound (.ofRange (entryOf options content i) content) (by
      rw [List.mem_reverse, h.chunksOf_eq]
      exact List.mem_map_of_mem (List.mem_range.mpr hi))
    exact absurd (beq_self_eq_true _) hnone
  · have hindex := List.find?_some hfound
    have hmem := List.mem_reverse.mp (List.mem_of_find?_eq_some hfound)
    rw [h.chunksOf_eq, List.mem_map] at hmem
    obtain ⟨j, hj, rfl⟩ := hmem
    have hsame : (entryOf options content j).index = (entryOf options content i).index :=
      eq_of_beq hindex
    have hnumber := congrArg UInt32.toNat hsame
    rw [h.toNat_index (List.mem_range.mp hj), h.toNat_index hi] at hnumber
    rw [hnumber]

lemma supplied (h : Countable options content)
    (hi : i < chunkCount options.chunkSize.toNat content.length) :
    Supplied (chunksOf options content) (entryOf options content i)
      (.ofRange (entryOf options content i) content) where
  found := h.chunkAt?_eq hi
  length_eq := by rw [h.content_ofRange hi, h.toNat_size, length_bytesOf]
  hash_eq := by rw [h.content_ofRange hi]; rfl

lemma forall_supplied (h : Countable options content) :
    ∀ info ∈ cut options content, ∃ chunk, Supplied (chunksOf options content) info chunk := by
  intro info hinfo
  rw [cut_eq h.size_pos, List.mem_map] at hinfo
  obtain ⟨i, hi, rfl⟩ := hinfo
  exact ⟨_, h.supplied (List.mem_range.mp hi)⟩

/-! ### What the chunks are -/

lemma flatMap_bytesOf_eq (h : Countable options content) :
    (List.range (chunkCount options.chunkSize.toNat content.length)).flatMap
      (bytesOf options.chunkSize.toNat content) = content := by
  rw [flatMap_bytesOf]
  exact List.take_of_length_le ((chunkCount_le_iff h.size_pos).mp (Nat.le_refl _))

theorem cutUp (h : Countable options content) :
    CutUp (chunksOf options content) options.chunkSize.toNat content := by
  have hchunk : ∀ chunk ∈ chunksOf options content,
      ∃ i < chunkCount options.chunkSize.toNat content.length,
        chunk.info = entryOf options content i := by
    intro chunk hmem
    rw [h.chunksOf_eq, List.mem_map] at hmem
    obtain ⟨i, hi, rfl⟩ := hmem
    exact ⟨i, List.mem_range.mp hi, rfl⟩
  -- A chunk at a position has the entry of that number.
  have hplace : ∀ i (hi : i < (chunksOf options content).length),
      i < chunkCount options.chunkSize.toNat content.length ∧
        (chunksOf options content)[i].info = entryOf options content i := by
    intro i hi
    simp only [h.chunksOf_eq, List.length_map, List.length_range] at hi
    refine ⟨hi, ?_⟩
    simp only [h.chunksOf_eq, List.getElem_map, List.getElem_range]
    rfl
  constructor
  · intro i hi
    obtain ⟨hlt, hinfo⟩ := hplace i hi
    rw [hinfo, h.toNat_index hlt]
  · intro i hi
    obtain ⟨hlt, hinfo⟩ := hplace i hi
    rw [hinfo]
    exact h.toNat_offset (Nat.le_of_lt hlt)
  · intro chunk hmem
    obtain ⟨i, hi, hinfo⟩ := hchunk chunk hmem
    have hlt := (lt_chunkCount_iff h.size_pos).mp hi
    have hpos := h.size_pos
    rw [hinfo, h.toNat_size]
    omega
  · intro chunk hmem
    obtain ⟨i, -, hinfo⟩ := hchunk chunk hmem
    rw [hinfo, h.toNat_size]
    exact Nat.min_le_left _ _
  · have hpieces : (chunksOf options content).flatMap (·.content) =
        (List.range (chunkCount options.chunkSize.toNat content.length)).flatMap
          (bytesOf options.chunkSize.toNat content) := by
      rw [h.chunksOf_eq, List.flatMap_map]
      exact List.flatMap_congr fun i hi => h.content_ofRange (List.mem_range.mp hi)
    rw [hpieces, h.flatMap_bytesOf_eq]

lemma covers_from (h : Countable options content) {first count : Nat}
    (hcount : chunkCount options.chunkSize.toNat content.length = first + count) :
    Covers options.chunkSize (chunksOf options content)
      (UInt64.ofNat (min (first * options.chunkSize.toNat) content.length))
      ((List.range' first count).map (entryOf options content))
      (UInt64.ofNat content.length) := by
  induction count generalizing first with
  | zero =>
    have hend : content.length ≤ first * options.chunkSize.toNat :=
      (chunkCount_le_iff h.size_pos).mp (by omega)
    rw [Nat.min_eq_right hend]
    exact .nil _
  | succ count ih =>
    have hi : first < chunkCount options.chunkSize.toNat content.length := by omega
    have hlt := (lt_chunkCount_iff h.size_pos).mp hi
    have hnext : (entryOf options content first).offset + (entryOf options content first).size =
        UInt64.ofNat (min ((first + 1) * options.chunkSize.toNat) content.length) := by
      change UInt64.ofNat (first * options.chunkSize.toNat) +
        UInt64.ofNat (bytesOf options.chunkSize.toNat content first).length = _
      rw [← UInt64.ofNat_add, length_bytesOf, Nat.succ_mul]
      congr 1
      omega
    have hsize : (entryOf options content first).size ≤ options.chunkSize := by
      rw [UInt64.le_iff_toNat_le, h.toNat_size]
      exact Nat.min_le_left _ _
    rw [List.range'_succ, List.map_cons, Nat.min_eq_left (Nat.le_of_lt hlt)]
    refine .cons rfl hsize (h.supplied hi) ?_
    rw [hnext]
    exact ih (by omega)

lemma covers (h : Countable options content) :
    Covers options.chunkSize (chunksOf options content) 0 (cut options content)
      (UInt64.ofNat content.length) := by
  have hcovers := h.covers_from (Nat.zero_add _).symm
  rw [Nat.zero_mul, Nat.zero_min, ← List.range_eq_range', ← cut_eq h.size_pos] at hcovers
  exact hcovers

lemma byIndex_cut (h : Countable options content) :
    byIndex (cut options content) = cut options content := by
  refine byIndex_eq_self ?_
  rw [cut_eq h.size_pos, List.pairwise_map]
  refine List.pairwise_lt_range.imp_of_mem fun {i j} hi hj hlt => ?_
  rw [UInt32.le_iff_toNat_le, h.toNat_index (List.mem_range.mp hi),
    h.toNat_index (List.mem_range.mp hj)]
  exact Nat.le_of_lt hlt

lemma joined_cut (h : Countable options content) :
    joined (chunksOf options content) (cut options content) = content := by
  have hpieces : joined (chunksOf options content) (cut options content) =
      (List.range (chunkCount options.chunkSize.toNat content.length)).flatMap
        (bytesOf options.chunkSize.toNat content) := by
    rw [joined, cut_eq h.size_pos, List.flatMap_map]
    refine List.flatMap_congr fun i hi => ?_
    have hlt := List.mem_range.mp hi
    rw [(h.supplied hlt).contentAt_eq, h.content_ofRange hlt]
  rw [hpieces, h.flatMap_bytesOf_eq]

end Countable

/-! ### Building -/

lemma rootHash_of_finalize {run run' : Run} {readings : List Int} {now : Int} {bundle : Bundle}
    (h : run.finalize readings now = (.ok bundle, run')) :
    bundle.privateRun.rootHash = some bundle.rootHash ∧ bundle.rootHash ≠ [] := by
  unfold Run.finalize at h
  split at h
  · cases h
  split at h
  · cases h
  · cases h
    refine ⟨rfl, List.ne_nil_of_length_pos ?_⟩
    change 0 < (Sha256.hex _).length
    rw [Sha256.length_hex]
    decide

lemma computeHash_ofContent (options : Options) (bundle : Bundle) (content : Bytes) :
    (ofContent options bundle content).manifest.computeHash =
      (ofContent options bundle content).manifest.manifestHash :=
  computeHash_sealed _

/-- **Cutting loses nothing.** For a bundle that finalizing has given, whatever content it is written
as, building a manifest succeeds and the cutting loop ends. The chunks are numbered and follow one
another, none is empty or larger than the chunk size, together they are the content, the manifest is
valid with them, and joining gives the content back. -/
theorem build_lossless {run run' : Run} {readings : List Int} {now : Int} {bundle : Bundle}
    (finalized : run.finalize readings now = (.ok bundle, run')) {options : Options}
    (uncompressed : options.compression = noCompression) (positive : 1 ≤ options.chunkSize)
    {content : Bytes} (length_lt : content.length < 2 ^ 63)
    (count_le : content.length ⌈/⌉ options.chunkSize.toNat ≤ 2 ^ 32) :
    ∃ built, buildFrom bundle options content = .ok built ∧
      Loops options content 0 0 built.manifest.chunks ∧
      built.chunks.map (·.info) = built.manifest.chunks ∧
      CutUp built.chunks options.chunkSize.toNat content ∧
      (verify built.manifest built.chunks).valid = true ∧
      reassemble built.manifest built.chunks = .ok content := by
  obtain ⟨hended, hroot⟩ := rootHash_of_finalize finalized
  have hpos : 0 < options.chunkSize.toNat := UInt64.le_iff_toNat_le.mp positive
  have hcount : Countable options content := ⟨hpos, length_lt, count_le⟩
  have hsize : options.chunkSize ≠ 0 := by
    rintro hzero
    rw [hzero] at hpos
    exact absurd hpos (by decide)
  refine ⟨ofContent options bundle content, ?_, hcount.loops, ?_, hcount.cutUp, ?_, ?_⟩
  · simp [buildFrom, hsize, uncompressed, hended]
  · change ((cut options content).map _).map _ = cut options content
    rw [List.map_map]
    exact List.map_id _
  · exact valid_iff.mpr ⟨computeHash_ofContent options bundle content, hcount.covers, hroot⟩
  · -- Every entry finds its own chunk, since no two have the same index.
    have hjoined : joined (chunksOf options content) (byIndex (cut options content)) = content := by
      rw [hcount.byIndex_cut, hcount.joined_cut]
    have hjoins : reassemble (ofContent options bundle content).manifest (chunksOf options content) =
        .ok (joined (chunksOf options content) (byIndex (cut options content))) := by
      refine reassemble_eq hcount.forall_supplied ?_
      change Sha256.hex (joined (chunksOf options content) (byIndex (cut options content))) = _
      rw [hjoined]
      rfl
    rw [hjoined] at hjoins
    exact hjoins

/-- Chunks of two bytes. -/
def pairs : Options := { chunkSize := 2 }

/-- Five bytes in chunks of two: the last chunk has one byte. -/
theorem build_lossless_oddLength :
    ∃ bundle run', (({} : Run).finalize [] 0 = (.ok bundle, run')) ∧
      pairs.compression = noCompression ∧ 1 ≤ pairs.chunkSize ∧
      ([1, 2, 3, 4, 5] : Bytes).length < 2 ^ 63 ∧
      ([1, 2, 3, 4, 5] : Bytes).length ⌈/⌉ pairs.chunkSize.toNat ≤ 2 ^ 32 ∧
      ∃ built, buildFrom bundle pairs [1, 2, 3, 4, 5] = .ok built ∧
        Loops pairs [1, 2, 3, 4, 5] 0 0 built.manifest.chunks ∧
        built.chunks.map (·.info) = built.manifest.chunks ∧
        CutUp built.chunks 2 [1, 2, 3, 4, 5] ∧
        (verify built.manifest built.chunks).valid = true ∧
        reassemble built.manifest built.chunks = .ok [1, 2, 3, 4, 5] := by
  have finalized : ({} : Run).finalize [] 0 = (.ok _, _) := rfl
  exact ⟨_, _, finalized, rfl, by decide, by decide, by decide,
    build_lossless finalized rfl (by decide) (by decide) (by decide)⟩

end Chronicle.Manifest
