import Chronicle.Manifest.Chunk
import Mathlib.Data.List.Nodup
import Mathlib.Tactic.Lemma

/-!
Which chunk an index stands for.

Of the chunks that are supplied under one index the last one counts. So entries meet the same chunks as
before when chunks that none of them mentions come or go, and when chunks of distinct indices are supplied
in another order.
-/

namespace Chronicle.Manifest

variable {chunks others : List Chunk} {entries : List ChunkInfo} {index : UInt32} {chunk : Chunk}

/-- The last of the chunks that are supplied under an index. -/
def LastOf (chunks : List Chunk) (index : UInt32) (chunk : Chunk) : Prop :=
  chunk.info.index = index ∧ ∃ front back, chunks = front ++ chunk :: back ∧
    ∀ other ∈ back, other.info.index ≠ index

/-- **An index stands for the last chunk** that is supplied under it. -/
theorem chunkAt?_eq_some_iff : chunkAt? chunks index = some chunk ↔ LastOf chunks index chunk := by
  rw [chunkAt?, List.find?_eq_some_iff_append, LastOf, beq_iff_eq]
  refine and_congr_right fun _ => ⟨?_, ?_⟩
  · rintro ⟨behind, before, hsplit, hbehind⟩
    refine ⟨before.reverse, behind.reverse, ?_, fun other hother => ?_⟩
    · rw [← List.reverse_reverse chunks, hsplit]
      simp
    · simpa using hbehind other (List.mem_reverse.mp hother)
  · rintro ⟨front, back, rfl, hback⟩
    refine ⟨back.reverse, front.reverse, by simp, fun other hother => ?_⟩
    simpa using hback other (List.mem_reverse.mp hother)

lemma LastOf.mem (h : LastOf chunks index chunk) : chunk ∈ chunks ∧ chunk.info.index = index := by
  obtain ⟨hindex, front, back, rfl, -⟩ := h
  exact ⟨List.mem_append_right _ List.mem_cons_self, hindex⟩

lemma chunkAt?_eq_none_iff :
    chunkAt? chunks index = none ↔ ∀ chunk ∈ chunks, chunk.info.index ≠ index := by
  simp [chunkAt?, List.find?_eq_none]

lemma lastOf_iff_of_nodup (h : (chunks.map (·.info.index)).Nodup) :
    LastOf chunks index chunk ↔ chunk ∈ chunks ∧ chunk.info.index = index := by
  refine ⟨LastOf.mem, ?_⟩
  rintro ⟨hmem, hindex⟩
  obtain ⟨front, back, rfl⟩ := List.append_of_mem hmem
  refine ⟨hindex, front, back, rfl, fun other hother heq => ?_⟩
  rw [List.map_append, List.map_cons] at h
  have hbehind := (List.nodup_cons.mp (List.nodup_append.mp h).2.1).1
  exact hbehind (List.mem_map.mpr ⟨other, hother, heq.trans hindex.symm⟩)

lemma chunkAt?_of_perm (hperm : others.Perm chunks) (h : (chunks.map (·.info.index)).Nodup)
    (index : UInt32) : chunkAt? others index = chunkAt? chunks index := by
  have hothers : (others.map (·.info.index)).Nodup := (hperm.map _).nodup_iff.mpr h
  refine Option.ext fun chunk => ?_
  rw [chunkAt?_eq_some_iff, chunkAt?_eq_some_iff, lastOf_iff_of_nodup hothers, lastOf_iff_of_nodup h,
    hperm.mem_iff]

/-- The chunks that some entry mentions. -/
def mentioned (entries : List ChunkInfo) (chunks : List Chunk) : List Chunk :=
  chunks.filter fun chunk => chunk.info.index ∈ entries.map (·.index)

lemma chunkAt?_mentioned {info : ChunkInfo} (hinfo : info ∈ entries) :
    chunkAt? (mentioned entries chunks) info.index = chunkAt? chunks info.index := by
  rw [chunkAt?, mentioned, ← List.filter_reverse, List.find?_filter, chunkAt?]
  congr 1
  funext chunk
  by_cases hindex : chunk.info.index = info.index
  · simp [hindex, List.mem_map_of_mem hinfo]
  · simp [hindex]

lemma chunkAt?_of_mentioned (h : mentioned entries others = mentioned entries chunks) :
    ∀ info ∈ entries, chunkAt? others info.index = chunkAt? chunks info.index := by
  intro info hinfo
  rw [← chunkAt?_mentioned hinfo, h, chunkAt?_mentioned hinfo]

end Chronicle.Manifest
