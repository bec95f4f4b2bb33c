import Chronicle.Proofs.Manifest.Joined

/-!
Joining does not depend on any order.

Entries are gone through by their indices, up to the first one whose chunk is missing or has another hash.
Entries of one index may come in any order, even if they name different hashes: all of them meet the same
chunk, so if one of them fails, the failure is the same whichever comes first. What comes out is told by the
indices alone.
-/

namespace Chronicle.Manifest

variable {manifest : Manifest} {chunks others : List Chunk} {entries ordered : List ChunkInfo}
  {index : UInt32}

/-! ### What comes out, by indices -/

/-- Some entry of an index has no chunk, or one with another hash. -/
def Unmet (entries : List ChunkInfo) (chunks : List Chunk) (index : UInt32) : Prop :=
  ∃ info ∈ entries, info.index = index ∧
    ∀ chunk, LastOf chunks index chunk → Sha256.hex chunk.content ≠ info.hash

/-- The smallest index of which some entry is not met. -/
structure FirstUnmet (entries : List ChunkInfo) (chunks : List Chunk) (index : UInt32) : Prop where
  unmet : Unmet entries chunks index
  least : ∀ other, Unmet entries chunks other → index ≤ other

/-- The entries in ascending order of their indices, those of one index in any order. -/
structure Ascending (entries ordered : List ChunkInfo) : Prop where
  perm : ordered.Perm entries
  pairwise : ordered.Pairwise (·.index ≤ ·.index)

/-- What joining gives, told by the indices of entries and chunks. -/
inductive Outcome (manifest : Manifest) (chunks : List Chunk) : Except JoinFault Bytes → Prop
  | missing {index : UInt32} (first : FirstUnmet manifest.chunks chunks index)
      (none : ∀ chunk ∈ chunks, chunk.info.index ≠ index) :
      Outcome manifest chunks (.error (.missing index))
  | chunkMismatch {index : UInt32} (first : FirstUnmet manifest.chunks chunks index)
      (some : ∃ chunk ∈ chunks, chunk.info.index = index) :
      Outcome manifest chunks (.error (.chunkMismatch index))
  | bundleMismatch {ordered : List ChunkInfo} (met : ∀ index, ¬ Unmet manifest.chunks chunks index)
      (ascending : Ascending manifest.chunks ordered)
      (hash_ne : Sha256.hex (joined chunks ordered) ≠ manifest.bundleHash) :
      Outcome manifest chunks (.error (.bundleMismatch manifest.runId))
  | complete {ordered : List ChunkInfo} (met : ∀ index, ¬ Unmet manifest.chunks chunks index)
      (ascending : Ascending manifest.chunks ordered)
      (hash_eq : Sha256.hex (joined chunks ordered) = manifest.bundleHash) :
      Outcome manifest chunks (.ok (joined chunks ordered))

lemma FirstUnmet.unique {index' : UInt32} (h : FirstUnmet entries chunks index)
    (h' : FirstUnmet entries chunks index') : index = index' :=
  UInt32.le_antisymm (h.least _ h'.unmet) (h'.least _ h.unmet)

lemma joined_eq_flatMap (chunks : List Chunk) (entries : List ChunkInfo) :
    joined chunks entries = (entries.map (·.index)).flatMap (contentAt chunks) := by
  rw [joined, List.flatMap_map]

lemma Ascending.joined_eq {ordered' : List ChunkInfo} (h : Ascending entries ordered)
    (h' : Ascending entries ordered') : joined chunks ordered = joined chunks ordered' := by
  have hperm : (ordered.map (·.index)).Perm (ordered'.map (·.index)) :=
    (h.perm.trans h'.perm.symm).map _
  have hindices : ordered.map (·.index) = ordered'.map (·.index) :=
    hperm.eq_of_pairwise (fun _ _ _ _ hle hge => UInt32.le_antisymm hle hge)
      (List.pairwise_map.mpr h.pairwise) (List.pairwise_map.mpr h'.pairwise)
  rw [joined_eq_flatMap, hindices, joined_eq_flatMap]

variable {result result' : Except JoinFault Bytes}

lemma Outcome.eq_fault (h : Outcome manifest chunks result)
    (first : FirstUnmet manifest.chunks chunks index) : result = .error (faultAt chunks index) := by
  unfold faultAt
  cases h with
  | missing first' none =>
    obtain rfl := first.unique first'
    rw [if_neg fun ⟨chunk, hchunk, hindex⟩ => none chunk hchunk hindex]
  | chunkMismatch first' some =>
    obtain rfl := first.unique first'
    rw [if_pos some]
  | bundleMismatch met _ _ => exact absurd first.unmet (met _)
  | complete met _ _ => exact absurd first.unmet (met _)

lemma Outcome.eq_whole (h : Outcome manifest chunks result)
    (met : ∀ index, ¬ Unmet manifest.chunks chunks index) (ascending : Ascending manifest.chunks ordered) :
    result = if Sha256.hex (joined chunks ordered) = manifest.bundleHash then .ok (joined chunks ordered)
      else .error (.bundleMismatch manifest.runId) := by
  cases h with
  | missing first _ => exact absurd first.unmet (met _)
  | chunkMismatch first _ => exact absurd first.unmet (met _)
  | bundleMismatch _ ascending' hash_ne => rw [ascending.joined_eq ascending', if_neg hash_ne]
  | complete _ ascending' hash_eq => rw [ascending.joined_eq ascending', if_pos hash_eq]

lemma Outcome.unique (h : Outcome manifest chunks result) (h' : Outcome manifest chunks result') :
    result = result' := by
  have hfault : ∀ {index}, FirstUnmet manifest.chunks chunks index → result = result' :=
    fun first => (h.eq_fault first).trans (h'.eq_fault first).symm
  have hwhole : ∀ {ordered}, (∀ index, ¬ Unmet manifest.chunks chunks index) →
      Ascending manifest.chunks ordered → result = result' :=
    fun met ascending => (h.eq_whole met ascending).trans (h'.eq_whole met ascending).symm
  cases h with
  | missing first _ => exact hfault first
  | chunkMismatch first _ => exact hfault first
  | bundleMismatch met ascending _ => exact hwhole met ascending
  | complete met ascending _ => exact hwhole met ascending

/-! ### All entries -/

lemma met_iff {info : ChunkInfo} :
    Met chunks info ↔ ∃ chunk, LastOf chunks info.index chunk ∧ Sha256.hex chunk.content = info.hash :=
  exists_congr fun _ => and_congr_left fun _ => chunkAt?_eq_some_iff

lemma unmet_iff : Unmet entries chunks index ↔ ∃ info ∈ entries, info.index = index ∧ ¬ Met chunks info := by
  refine exists_congr fun info => and_congr_right fun _ => and_congr_right fun hindex => ?_
  rw [met_iff, hindex, not_exists]
  exact forall_congr' fun chunk => by rw [not_and]

/-- In ascending order the first entry that is not met has the smallest index of all that are not. -/
lemma Ascending.firstUnmet (h : Ascending entries ordered) {front back : List ChunkInfo}
    {info : ChunkInfo} (hsplit : ordered = front ++ info :: back)
    (hfront : ∀ before ∈ front, Met chunks before) (hnot : ¬ Met chunks info) :
    FirstUnmet entries chunks info.index := by
  have hinfo : info ∈ ordered := by
    rw [hsplit]
    exact List.mem_append_right _ List.mem_cons_self
  refine ⟨unmet_iff.mpr ⟨info, h.perm.mem_iff.mp hinfo, rfl, hnot⟩, fun other hother => ?_⟩
  obtain ⟨info', hinfo', rfl, hnot'⟩ := unmet_iff.mp hother
  have hbehind : info' ∈ info :: back := by
    have hmem := h.perm.mem_iff.mpr hinfo'
    rw [hsplit, List.mem_append] at hmem
    exact hmem.resolve_left fun hbefore => hnot' (hfront info' hbefore)
  have hsorted := h.pairwise
  rw [hsplit] at hsorted
  rcases List.mem_cons.mp hbehind with rfl | hback
  · exact UInt32.le_refl _
  · exact List.rel_of_pairwise_cons (List.pairwise_append.mp hsorted).2.1 hback

/-- Joining in a given order of the entries. -/
def joinInOrder (manifest : Manifest) (chunks : List Chunk) (ordered : List ChunkInfo) :
    Except JoinFault Bytes := do
  let content ← pieces chunks ordered
  if Digest.agree (Sha256.hex content) manifest.bundleHash then return content
  else .error (.bundleMismatch manifest.runId)

lemma reassemble_eq_joinInOrder (manifest : Manifest) (chunks : List Chunk) :
    reassemble manifest chunks = joinInOrder manifest chunks (byIndex manifest.chunks) := rfl

lemma ascending_byIndex (entries : List ChunkInfo) : Ascending entries (byIndex entries) :=
  ⟨sortBy_perm _ entries, sortBy_pairwise ChunkInfo.index entries⟩

/-- **Whatever ascending order is gone through**, the outcome is the one that the indices tell. -/
theorem outcome_of_ascending (h : Ascending manifest.chunks ordered) :
    Outcome manifest chunks (joinInOrder manifest chunks ordered) := by
  rcases pieces_cases chunks ordered with
    ⟨hmet, hpieces⟩ | ⟨front, info, back, hsplit, hfront, hnot, hpieces⟩
  · have hall : ∀ index, ¬ Unmet manifest.chunks chunks index := by
      intro index hunmet
      obtain ⟨info, hinfo, -, hnot⟩ := unmet_iff.mp hunmet
      exact hnot (hmet info (h.perm.mem_iff.mpr hinfo))
    rw [joinInOrder, hpieces]
    dsimp only [bind, Except.bind]
    split
    · next hagree => exact .complete hall h (Digest.eq_of_agree hagree)
    · next hagree =>
      refine .bundleMismatch hall h fun hhash => hagree ?_
      rw [hhash, Digest.agree_self]
  · have hfirst := h.firstUnmet hsplit hfront hnot
    rw [joinInOrder, hpieces]
    dsimp only [bind, Except.bind]
    unfold faultAt
    split
    · next hsome => exact .chunkMismatch hfirst hsome
    · next hnone => exact .missing hfirst fun chunk hchunk hindex => hnone ⟨chunk, hchunk, hindex⟩

/-! ### Other chunks -/

lemma pieces_congr (h : ∀ info ∈ entries, chunkAt? others info.index = chunkAt? chunks info.index) :
    pieces others entries = pieces chunks entries := by
  induction entries with
  | nil => rfl
  | cons info rest ih =>
    obtain ⟨hinfo, hrest⟩ := List.forall_mem_cons.mp h
    rw [pieces, pieces, ih hrest, piece, piece, hinfo]

lemma reassemble_congr
    (h : ∀ info ∈ manifest.chunks, chunkAt? others info.index = chunkAt? chunks info.index) :
    reassemble manifest others = reassemble manifest chunks := by
  have hpieces : pieces others (byIndex manifest.chunks) = pieces chunks (byIndex manifest.chunks) :=
    pieces_congr fun info hinfo => h info ((ascending_byIndex _).perm.mem_iff.mp hinfo)
  rw [reassemble, hpieces, reassemble]

/-- **Joining depends on indices only.** What comes out is the failure of the smallest index of which some
entry has no chunk or one with another hash; without such an index it is the contents of the chunks in the
order of the indices of the entries, if they have the hash of the bundle. So it is the same in whatever order
entries of one index are gone through, for every permutation of the entries, for every order of chunks of
distinct indices, and with any chunks that no entry mentions. -/
theorem reassemble_by_indices (manifest : Manifest) (chunks : List Chunk) :
    (∀ result, reassemble manifest chunks = result ↔ Outcome manifest chunks result) ∧
      (∀ ordered, Ascending manifest.chunks ordered →
        joinInOrder manifest chunks ordered = reassemble manifest chunks) ∧
      (∀ entries, entries.Perm manifest.chunks →
        reassemble { manifest with chunks := entries } chunks = reassemble manifest chunks) ∧
      (∀ others, others.Perm chunks → (chunks.map (·.info.index)).Nodup →
        reassemble manifest others = reassemble manifest chunks) ∧
      ∀ others, mentioned manifest.chunks others = mentioned manifest.chunks chunks →
        reassemble manifest others = reassemble manifest chunks := by
  have houtcome : Outcome manifest chunks (reassemble manifest chunks) := by
    rw [reassemble_eq_joinInOrder]
    exact outcome_of_ascending (ascending_byIndex manifest.chunks)
  have hordered : ∀ ordered, Ascending manifest.chunks ordered →
      joinInOrder manifest chunks ordered = reassemble manifest chunks :=
    fun ordered hascending => (outcome_of_ascending hascending).unique houtcome
  refine ⟨fun result => ?_, hordered, fun entries hperm => ?_, fun others hperm hnodup => ?_,
    fun others hmentioned => reassemble_congr (chunkAt?_of_mentioned hmentioned)⟩
  · constructor
    · rintro rfl
      exact houtcome
    · exact houtcome.unique
  · have hascending := ascending_byIndex entries
    exact hordered (byIndex entries) ⟨hascending.perm.trans hperm, hascending.pairwise⟩
  · exact reassemble_congr fun info _ => chunkAt?_of_perm hperm hnodup info.index

/-- Two entries of one index that name different hashes, and an entry without a chunk. -/
def conflictingManifest : Manifest :=
  { chunks := [{ index := 7 }, { index := 3, hash := Sha256.hex [97], size := 1 }, { index := 3 }] }

def conflictingChunks : List Chunk :=
  [.ofContent { index := 3, size := 1 } [97], .ofContent { index := 5 } []]

/-- The entry that names another hash is found in each order, the missing chunk in none. -/
theorem reassemble_by_indices_conflicting :
    reassemble conflictingManifest conflictingChunks = .error (.chunkMismatch 3) ∧
      conflictingManifest.chunks.reverse.Perm conflictingManifest.chunks ∧
      reassemble { conflictingManifest with chunks := conflictingManifest.chunks.reverse }
        conflictingChunks = .error (.chunkMismatch 3) ∧
      (conflictingChunks.map (·.info.index)).Nodup ∧
      reassemble conflictingManifest conflictingChunks.reverse = .error (.chunkMismatch 3) ∧
      reassemble conflictingManifest (conflictingChunks.take 1) = .error (.chunkMismatch 3) := by
  obtain ⟨houtcome, -, hentries, hchunks, hmentioned⟩ :=
    reassemble_by_indices conflictingManifest conflictingChunks
  have hleast : ∀ other, Unmet conflictingManifest.chunks conflictingChunks other → 3 ≤ other := by
    rintro _ ⟨info, hinfo, rfl, -⟩
    revert info
    decide
  have hunmet : Unmet conflictingManifest.chunks conflictingChunks 3 := by
    refine ⟨{ index := 3 }, by simp [conflictingManifest], rfl, fun chunk _ hhash => ?_⟩
    have hlength := congrArg List.length hhash
    rw [Sha256.length_hex] at hlength
    cases hlength
  have hfault : reassemble conflictingManifest conflictingChunks = .error (.chunkMismatch 3) :=
    (houtcome _).mpr (.chunkMismatch ⟨hunmet, hleast⟩ ⟨_, List.mem_cons_self, rfl⟩)
  have hperm := List.reverse_perm conflictingManifest.chunks
  have hnodup : (conflictingChunks.map (·.info.index)).Nodup := by decide
  refine ⟨hfault, hperm, ?_, hnodup, ?_, ?_⟩
  · rw [hentries _ hperm, hfault]
  · rw [hchunks _ (List.reverse_perm conflictingChunks) hnodup, hfault]
  · rw [hmentioned _ (by decide), hfault]

end Chronicle.Manifest
