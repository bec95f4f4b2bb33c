import Chronicle.Proofs.Assembly.Course
import Chronicle.Proofs.Manifest.Verified

/-!
What assembling lets through.

The manifest is made by an operation that is supplied, and so are the chunks; nothing is taken on trust.
The bundle gets the manifest's hash written into it, so comparing these two finds nothing. What holds a
forged manifest back is the comparison of the root hashes and the verification behind it, and what passes
both agrees in everything that they look at.
-/

namespace Chronicle.Manifest

variable {limit covered last size : UInt64} {chunks : List Chunk} {entries : List ChunkInfo}

/-- Entries that lie one behind the other over a size: each starts where the sizes before it end, is not
larger than allowed, and has its chunk among those supplied. Sums wrap around at 64 bits. -/
structure LaidOut (limit : UInt64) (chunks : List Chunk) (entries : List ChunkInfo) (size : UInt64) :
    Prop where
  offset_eq : ∀ front info back, entries = front ++ info :: back →
    info.offset = .ofNat (totalSize front)
  size_le : ∀ info ∈ entries, info.size ≤ limit
  supplied : ∀ info ∈ entries, ∃ chunk ∈ chunks, Supplied chunks info chunk
  size_eq : .ofNat (totalSize entries) = size

lemma ofNat_totalSize_cons (info : ChunkInfo) (rest : List ChunkInfo) :
    UInt64.ofNat (totalSize (info :: rest)) = info.size + .ofNat (totalSize rest) := by
  rw [totalSize, UInt64.ofNat_add, UInt64.ofNat_toNat]

lemma Supplied.mem {info : ChunkInfo} {chunk : Chunk} (h : Supplied chunks info chunk) :
    chunk ∈ chunks :=
  List.mem_reverse.mp (List.mem_of_find?_eq_some h.found)

lemma Covers.size_le (h : Covers limit chunks covered entries last) :
    ∀ info ∈ entries, info.size ≤ limit := by
  induction h with
  | nil place => simp
  | cons _ hsize _ _ ih => exact List.forall_mem_cons.mpr ⟨hsize, ih⟩

lemma Covers.last_eq (h : Covers limit chunks covered entries last) :
    last = covered + .ofNat (totalSize entries) := by
  induction h with
  | nil place => simp [totalSize]
  | cons hoffset _ _ _ ih => rw [ih, hoffset, ofNat_totalSize_cons, UInt64.add_assoc]

lemma Covers.offset_eq (h : Covers limit chunks covered entries last) {front back : List ChunkInfo}
    {info : ChunkInfo} (hsplit : entries = front ++ info :: back) :
    info.offset = covered + .ofNat (totalSize front) := by
  subst hsplit
  obtain ⟨middle, hfront, hback⟩ := h.append
  cases hback with
  | cons hoffset _ _ _ => rw [hoffset, hfront.last_eq]

lemma covers_of_laidOut
    (hoffset : ∀ front info back, entries = front ++ info :: back →
      info.offset = covered + .ofNat (totalSize front))
    (hsize : ∀ info ∈ entries, info.size ≤ limit)
    (hsupplied : ∀ info ∈ entries, ∃ chunk ∈ chunks, Supplied chunks info chunk) :
    Covers limit chunks covered entries (covered + .ofNat (totalSize entries)) := by
  induction entries generalizing covered with
  | nil => simpa [totalSize] using Covers.nil covered
  | cons info rest ih =>
    have hfirst : info.offset = covered := by simpa [totalSize] using hoffset [] info rest rfl
    obtain ⟨hinfo, hrest⟩ := List.forall_mem_cons.mp hsize
    obtain ⟨⟨chunk, -, hchunk⟩, hchunks⟩ := List.forall_mem_cons.mp hsupplied
    rw [ofNat_totalSize_cons, ← UInt64.add_assoc, ← hfirst]
    refine .cons rfl hinfo hchunk (ih (fun front next back hsplit => ?_) hrest hchunks)
    rw [hoffset (info :: front) next back (by rw [hsplit]; rfl), hfirst, ofNat_totalSize_cons,
      UInt64.add_assoc]

/-- **Entries cover a size** if and only if they are laid out over it. -/
theorem covers_iff : Covers limit chunks 0 entries size ↔ LaidOut limit chunks entries size := by
  constructor
  · intro h
    refine ⟨fun front info back hsplit => ?_, h.size_le, fun info hinfo => ?_, ?_⟩
    · rw [h.offset_eq hsplit, UInt64.zero_add]
    · obtain ⟨chunk, hchunk⟩ := h.supplied hinfo
      exact ⟨chunk, hchunk.mem, hchunk⟩
    · rw [h.last_eq, UInt64.zero_add]
  · intro h
    have hcovers : Covers limit chunks 0 entries (0 + .ofNat (totalSize entries)) := covers_of_laidOut
      (fun front info back hsplit => by rw [h.offset_eq front info back hsplit, UInt64.zero_add])
      h.size_le h.supplied
    rwa [UInt64.zero_add, h.size_eq] at hcovers

end Chronicle.Manifest

namespace Chronicle.Trace

/-- A bundle and a manifest that agree, with the chunks that the manifest lists. -/
structure Built.Sound (built : Built) : Prop where
  root_ne_nil : built.manifest.rootHash ≠ []
  root_eq : built.manifest.rootHash = built.bundle.rootHash
  hash_eq : built.bundle.manifestHash = some built.manifest.manifestHash
  own_hash : built.manifest.manifestHash = built.manifest.computeHash
  laidOut : Manifest.LaidOut built.manifest.chunkSize built.chunks built.manifest.chunks
    built.manifest.bundleSize

lemma verified_iff {manifest : Manifest} {chunks : List Manifest.Chunk} :
    (Manifest.verify manifest chunks).defects = [] ↔
      manifest.rootHash ≠ [] ∧ manifest.manifestHash = manifest.computeHash ∧
        Manifest.LaidOut manifest.chunkSize chunks manifest.chunks manifest.bundleSize := by
  rw [← List.isEmpty_iff, ← Manifest.covers_iff]
  refine Manifest.valid_iff.trans ⟨fun h => ⟨h.root_ne_nil, h.hash_eq.symm, h.covers⟩, ?_⟩
  exact fun ⟨hroot, hhash, hcovers⟩ => ⟨hhash.symm, hcovers, hroot⟩

variable {built : Built}

/-- **Nothing is wrong with what was built** if and only if it is sound. The first comparison, of the
manifest's hash with the copy of it in the bundle, never finds anything. -/
theorem Built.fault?_eq_none_iff
    (hcopy : built.bundle.manifestHash = some built.manifest.manifestHash) :
    built.fault? = none ↔ built.Sound := by
  have hfault : built.fault? = none ↔ built.manifest.rootHash = built.bundle.rootHash ∧
      (Manifest.verify built.manifest built.chunks).defects = [] := by
    unfold Built.fault?
    rw [hcopy, Option.getD_some, Digest.agree_self]
    by_cases hroot : built.manifest.rootHash = built.bundle.rootHash
    · rcases hdefects : (Manifest.verify built.manifest built.chunks).defects with _ | ⟨first, rest⟩ <;>
        simp [hroot]
    · simp [hroot]
  rw [hfault, verified_iff]
  constructor
  · rintro ⟨hroot, hne, hown, hlaidOut⟩
    exact ⟨hne, hroot, hcopy, hown, hlaidOut⟩
  · exact fun h => ⟨h.root_eq, h.root_ne_nil, h.own_hash, h.laidOut⟩

lemma Built.category_of_fault {fault : AssemblyFault} (h : built.fault? = some fault) :
    fault.problem.category = .integrity := by
  unfold Built.fault? at h
  dsimp only at h
  split at h
  · cases h
    rfl
  · split at h
    · cases h
    · cases h
      rfl

/-- **A manifest is checked before it is handed on.** A batch has been recorded and no call has failed;
the operation that makes the manifest may hand back any manifest with any chunks. What comes out is the
bundle with just these, if they are sound: the manifest names the root hash of the bundle, which is not
empty, carries its own hash, which is also in the bundle, and is laid out over chunks of the sizes and
hashes that it lists. Otherwise a problem of integrity comes out and nothing else. -/
theorem assemble_checks_manifest {σ : Type} (primitives : Primitives (Fallible σ))
    (settings : AssemblySettings) (batch : Batch) {state between after : σ} {bundle : Bundle}
    {chunked : Manifest.Chunked}
    (recorded : (record primitives settings batch).outcome state = (.ok bundle, between))
    (made : (primitives.createManifest bundle batch.manifestOptions).outcome between =
      (.ok chunked, after)) :
    ∃ result, (assemble primitives settings batch).outcome state = (result, after) ∧
      ((∃ built, result = .ok built) ↔ (Built.of bundle chunked).Sound) ∧
      (∀ built, result = .ok built → built = .of bundle chunked ∧ built.Sound) ∧
      (∀ failure, result = .error failure →
        ∃ problem, failure = .reported problem ∧ problem.category = .integrity) := by
  have hdraft : (draft primitives settings batch).outcome state =
      (.ok (.of bundle chunked), after) := by
    rw [draft, outcome_bind, recorded]
    dsimp only
    rw [outcome_bind, made]
    rfl
  have hresult := (Fallible.runner σ).run_assemble primitives settings batch state
  simp only [Fallible.runner] at hresult
  rw [hdraft] at hresult
  -- The hash in the bundle is a copy of the one in the manifest, so they agree.
  have hiff : (Built.of bundle chunked).fault? = none ↔ (Built.of bundle chunked).Sound :=
    Built.fault?_eq_none_iff rfl
  refine ⟨_, hresult, ?_⟩
  simp only [Batch.concluded]
  rcases hfault : (Built.of bundle chunked).fault? with _ | fault
  · have hsound := hiff.mp hfault
    refine ⟨⟨fun _ => hsound, fun _ => ⟨_, rfl⟩⟩, ?_, ?_⟩
    · rintro _ ⟨⟩
      exact ⟨rfl, hsound⟩
    · rintro _ ⟨⟩
  · have hnot : ¬ (Built.of bundle chunked).Sound := by
      rw [← hiff, hfault]
      simp
    refine ⟨⟨?_, fun hsound => absurd hsound hnot⟩, ?_, ?_⟩
    · rintro ⟨_, ⟨⟩⟩
    · rintro _ ⟨⟩
    · rintro _ ⟨⟩
      exact ⟨_, rfl, Built.category_of_fault hfault⟩

/-- Operations that record nothing, and hand back a manifest that names no root hash but is sealed. -/
def forgingPrimitives : Primitives (Fallible Unit) where
  createTrace agentId := pure { agentId }
  addSpan options run :=
    pure (⟨[1], 0, options.name, .running, options.visibility, [], none, none, none, [], [], none, 0⟩, run)
  addEvent _ input run :=
    pure (⟨[2], 0, input.kind, input.eventType, input.data, input.visibility, [], []⟩, run)
  closeSpan _ status run := pure (status, run)
  finalizeTrace run := pure ({ privateRun := run, rootHash := [114] }, run)
  createManifest _ _ := pure ⟨Manifest.sealed {}, []⟩

/-- An emptied root hash is found although the manifest carries its own hash. -/
theorem assemble_checks_manifest_emptied :
    ∃ bundle,
      (record forgingPrimitives {} { agentId := [97], events := [{ ts := [48], kind := [98] }] }).outcome
        () = (.ok bundle, ()) ∧
      ∃ problem after,
        (assemble forgingPrimitives {} { agentId := [97], events := [{ ts := [48], kind := [98] }] }).outcome
          () = (.error (.reported problem), after) ∧ problem.category = .integrity := by
  obtain ⟨result, hresult, hiff, -, hfailed⟩ :=
    assemble_checks_manifest forgingPrimitives {}
      { agentId := [97], events := [{ ts := [48], kind := [98] }] } rfl rfl
  refine ⟨_, rfl, ?_⟩
  rcases result with failure | built
  · obtain ⟨problem, rfl, hcategory⟩ := hfailed failure rfl
    exact ⟨problem, _, hresult, hcategory⟩
  · exact absurd rfl (hiff.mp ⟨built, rfl⟩).root_ne_nil

end Chronicle.Trace
