import Chronicle.Proofs.Artifact.Files
import Chronicle.Proofs.Manifest.Lossless

/-!
A manifest on disk refers to chunks that are there.

Bundles are published any number of times below one directory, and each call can fail at any of its writes.
A manifest is the last file of a call, and chunks are named by their digests, so what a later call writes
over is what it was. The manifest that can be read under an identifier is that of the last call that
published it, and all of its chunks can be read.
-/

namespace Chronicle.Artifact

open Disk Storage

/-! ### Histories -/

/-- A call of publish, and how it ended. -/
structure Call where
  bundleId : Bytes
  built : Trace.Built
  result : Except Failure Store.Published

def Call.published (call : Call) : Bool :=
  match call.result with
  | .ok _ => true
  | .error _ => false

/-- The build that was published last under an identifier. -/
def latest? (calls : List Call) (bundleId : Bytes) : Option Trace.Built :=
  calls.foldl (fun latest call =>
    if call.bundleId = bundleId ∧ call.published then some call.built else latest) none

/-- Calls that were made one after the other, whatever failed in each, and the host after them. -/
inductive History (store : Store) (start : Host) : List Call → Host → Prop
  | start : History store start [] start
  | publish {calls : List Call} {call : Call} {host after : Host} (h : History store start calls host)
      (next : (store.publish call.bundleId call.built).MayEnd host call.result after) :
      History store start (calls ++ [call]) after

/-- Identifiers without null bytes, and builds whose manifests list chunks that are named by the digests of
their contents, where different contents of one identifier have different digests. -/
structure Consistent (calls : List Call) : Prop where
  no_null : ∀ call ∈ calls, (0 : UInt8) ∉ call.bundleId
  hash_eq : ∀ call ∈ calls, ∀ chunk ∈ call.built.chunks, chunk.info.hash = Sha256.hex chunk.content
  listed : ∀ call ∈ calls, ∀ info ∈ call.built.manifest.chunks, ∃ chunk ∈ call.built.chunks, chunk.info = info
  distinct : ∀ call ∈ calls, ∀ call' ∈ calls, call.bundleId = call'.bundleId →
    ∀ chunk ∈ call.built.chunks, ∀ chunk' ∈ call'.built.chunks,
      Sha256.hex chunk.content = Sha256.hex chunk'.content → chunk.content = chunk'.content

/-- A directory that is missing or empty. -/
def Vacant (disk : Disk) (here : Standing) (directory : Path) : Prop :=
  ∀ base, disk.aim here true directory = some base →
    (disk.find? base = none ∨ disk.find? base = some .directory) ∧
      ∀ names, names ≠ [] → disk.find? (base ++ names) = none

/-- A store in which nothing has been published yet. -/
structure Store.IsVacant (store : Store) (disk : Disk) (here : Standing) : Prop where
  bundles : Vacant disk here store.bundles
  manifests : Vacant disk here store.manifests
  chunks : Vacant disk here store.chunks

variable {disk : Disk} {here : Standing} {store : Store} {start host after : Host} {calls : List Call}
  {call : Call} {bundleId : Bytes} {built : Trace.Built}

lemma latest?_concat (calls : List Call) (call : Call) (bundleId : Bytes) :
    latest? (calls ++ [call]) bundleId =
      if call.bundleId = bundleId ∧ call.published then some call.built else latest? calls bundleId := by
  rw [latest?, List.foldl_append]
  rfl

lemma exists_call (h : latest? calls bundleId = some built) :
    ∃ call ∈ calls, call.bundleId = bundleId ∧ call.built = built := by
  induction calls using List.reverseRecOn with
  | nil => cases h
  | append_singleton calls call ih =>
    rw [latest?_concat] at h
    split at h
    · next hcall => exact ⟨call, by simp, hcall.1, Option.some.inj h⟩
    · obtain ⟨other, hmem, hother⟩ := ih h
      exact ⟨other, List.mem_append_left _ hmem, hother⟩

lemma Consistent.of_append {more : List Call} (h : Consistent (calls ++ more)) : Consistent calls where
  no_null call hcall := h.no_null call (List.mem_append_left _ hcall)
  hash_eq call hcall := h.hash_eq call (List.mem_append_left _ hcall)
  listed call hcall := h.listed call (List.mem_append_left _ hcall)
  distinct call hcall call' hcall' :=
    h.distinct call (List.mem_append_left _ hcall) call' (List.mem_append_left _ hcall')

lemma Consistent.addressed (h : Consistent calls) (hcall : call ∈ calls) : Addressed call.built.chunks where
  hash_eq := h.hash_eq call hcall
  distinct := h.distinct call hcall call hcall rfl

lemma named_of_buildFrom {bundle : Trace.Bundle} {options : Manifest.Options} {content : Bytes}
    {chunked : Manifest.Chunked} (countable : Manifest.Countable options content)
    (h : Manifest.buildFrom bundle options content = .ok chunked) :
    (∀ chunk ∈ chunked.chunks, chunk.info.hash = Sha256.hex chunk.content) ∧
      ∀ info ∈ chunked.manifest.chunks, ∃ chunk ∈ chunked.chunks, chunk.info = info := by
  unfold Manifest.buildFrom at h
  split at h
  · cases h
  split at h
  · cases h
  split at h
  · cases h
  cases h
  refine ⟨fun chunk hchunk => ?_, fun info hinfo => ⟨.ofRange info content, List.mem_map_of_mem hinfo, rfl⟩⟩
  have hchunk : chunk ∈ Manifest.chunksOf options content := hchunk
  rw [countable.chunksOf_eq, List.mem_map] at hchunk
  obtain ⟨i, hi, rfl⟩ := hchunk
  rw [countable.content_ofRange (List.mem_range.mp hi)]
  rfl

/-- Calls that publish what was built from the texts of bundles are consistent, unless two chunks of one
identifier are a collision. -/
theorem consistent_of_buildFrom (no_null : ∀ call ∈ calls, (0 : UInt8) ∉ call.bundleId)
    (builds : ∀ call ∈ calls, ∃ bundle options content chunked, Manifest.Countable options content ∧
      Manifest.buildFrom bundle options content = .ok chunked ∧
      call.built.manifest = chunked.manifest ∧ call.built.chunks = chunked.chunks)
    (distinct : ∀ call ∈ calls, ∀ call' ∈ calls, call.bundleId = call'.bundleId →
      ∀ chunk ∈ call.built.chunks, ∀ chunk' ∈ call'.built.chunks,
        Sha256.hex chunk.content = Sha256.hex chunk'.content → chunk.content = chunk'.content) :
    Consistent calls := by
  have hnamed : ∀ call ∈ calls,
      (∀ chunk ∈ call.built.chunks, chunk.info.hash = Sha256.hex chunk.content) ∧
        ∀ info ∈ call.built.manifest.chunks, ∃ chunk ∈ call.built.chunks, chunk.info = info := by
    intro call hcall
    obtain ⟨_, _, _, _, countable, hbuild, hmanifest, hchunks⟩ := builds call hcall
    rw [hmanifest, hchunks]
    exact named_of_buildFrom countable hbuild
  exact ⟨no_null, fun call hcall => (hnamed call hcall).1, fun call hcall => (hnamed call hcall).2, distinct⟩

lemma published_iff : call.published = true ↔ ∃ value, call.result = .ok value := by
  unfold Call.published
  split
  · next value hresult => simp [hresult]
  · next failure hresult => simp [hresult]

/-! ### One call -/

/-- What can be said of the disk after some calls. The manifest found in the place of an identifier is that
of its last published build, and the files of that build are all there. -/
structure Intact (store : Store) (calls : List Call) (host : Host) : Prop where
  neat : Neat store host.disk host.here
  isName : ∀ bundleId built, latest? calls bundleId = some built → IsName bundleId
  manifest_eq : ∀ bundleId base text, host.disk.aim host.here true store.manifests = some base →
    host.disk.find? (base ++ [bundleId ++ manifestSuffix]) = some (.file text) →
    ∃ built, latest? calls bundleId = some built ∧ text = Store.textOf built.manifest.document
  manifest : ∀ bundleId built, latest? calls bundleId = some built →
    host.disk.Has host.here (store.manifestFile bundleId) (Store.textOf built.manifest.document)
  chunks : ∀ bundleId built, latest? calls bundleId = some built → ∀ chunk ∈ built.chunks,
    host.disk.Has host.here (store.chunkFile bundleId chunk.info.hash) chunk.content

/-- A call of publish has put some of its files in place, and all of them if it has published. -/
structure Ended (store : Store) (call : Call) (host : Host) (done : List Draft) (after : Host) : Prop where
  here_eq : after.here = host.here
  placed : Draft.Placed done host.disk host.here after.disk
  mem : ∀ draft ∈ done, draft ∈ store.drafts call.bundleId call.built
  isName : ∀ draft ∈ done, IsName call.bundleId
  all : call.published = true → done = store.drafts call.bundleId call.built
  no_manifest : call.published = false → ∀ draft ∈ done, draft ∈ store.contentDrafts call.bundleId call.built

/-- How a call can end, whatever fails. -/
lemma exists_ended (neat : Neat store host.disk host.here) (addressed : Addressed call.built.chunks)
    (hnull : (0 : UInt8) ∉ call.bundleId)
    (hend : (store.publish call.bundleId call.built).MayEnd host call.result after) :
    ∃ done, Ended store call host done after := by
  by_cases husable : isUsable call.bundleId = true
  · have hname : IsName call.bundleId := isName_of_usable husable hnull
    obtain ⟨hhere, done, rest, hdrafts, hplaced, hrest⟩ := writes_publish store husable call.built host
      call.result after (neat.ready_drafts hname addressed) (agree_drafts addressed) hend
    rw [← published_iff] at hrest
    refine ⟨done, hhere, hplaced, fun draft hdraft => ?_, fun _ _ => hname, fun hpublished => ?_,
      fun hfailed draft hdraft => ?_⟩
    · rw [hdrafts]
      exact List.mem_append_left _ hdraft
    · rw [hdrafts, hrest.mpr hpublished, List.append_nil]
    · -- The manifest comes last, so it is among what has not been written.
      obtain ⟨front, last, rfl⟩ := (List.eq_nil_or_concat rest).resolve_left fun hnil => by
        rw [hrest.mp hnil] at hfailed
        cases hfailed
      rw [Store.drafts, List.concat_eq_append, ← List.append_assoc] at hdrafts
      rw [(List.append_inj' hdrafts rfl).1]
      exact List.mem_append_left _ hdraft
  · obtain ⟨⟨failure, hfailure⟩, rfl⟩ := mayEnd_publish_unusable husable hend
    have hfailed : call.published = false := by rw [Call.published, hfailure]
    exact ⟨[], rfl, Draft.placed_nil (Put.refl _), by simp, by simp, by simp [hfailed], by simp⟩

lemma Ended.isName_of_published {done : List Draft} (h : Ended store call host done after)
    (hpublished : call.published = true) : IsName call.bundleId := by
  refine h.isName (store.manifestDraft call.bundleId call.built.manifest) ?_
  rw [h.all hpublished]
  exact List.mem_append_right _ (List.mem_singleton_self _)

lemma Ended.manifest_of_lands {done : List Draft} (h : Ended store call host done after)
    (addressed : Addressed call.built.chunks) {base : Key} {text : Bytes}
    (hlands : Draft.Lands done host.disk host.here (base ++ [bundleId ++ manifestSuffix]) text) :
    call.bundleId = bundleId ∧ call.published = true := by
  obtain ⟨draft, hdraft, -, base', -, hkey⟩ := hlands
  obtain ⟨rfl, hname⟩ := List.append_inj' hkey rfl
  have hname : bundleId ++ manifestSuffix = draft.name := by simpa using hname
  obtain ⟨hid, hmanifest⟩ := manifest_of_name addressed (h.mem draft hdraft) hname.symm
  refine ⟨hid, ?_⟩
  by_contra hfailed
  have hcontent := h.no_manifest (by simpa using hfailed) draft hdraft
  -- What comes before the manifest has names of other kinds.
  simp only [Store.contentDrafts, List.mem_append, List.mem_map, List.mem_singleton] at hcontent
  rcases hcontent with ⟨chunk, hchunk, rfl⟩ | rfl
  · rw [Store.chunkDraft, addressed.hash_eq chunk hchunk] at hname
    exact chunk_ne_manifest _ _ hname.symm
  · exact bundle_ne_manifest _ _ hname.symm

namespace Intact

lemma latest_of_content (h : Intact store calls host) (hid : IsName bundleId) {text : Bytes}
    (hread : host.disk.content? host.here (store.manifestFile bundleId) = some text) :
    ∃ built, latest? calls bundleId = some built ∧ text = Store.textOf built.manifest.document := by
  have hready := h.neat.ready_manifest hid {}
  obtain ⟨base, hbase, hfile⟩ := hready.tidy.file_of_content? hready.above hready.isName hread
  exact h.manifest_eq bundleId base text hbase hfile

/-- A file of an earlier build stays unless the call puts another content in its place. -/
lemma has_after {done : List Draft} {draft : Draft} (ended : Ended store call host done after)
    (ready : draft.Ready host.disk host.here) (hhas : host.disk.Has host.here draft.path draft.data)
    (hlands : ∀ base other, host.disk.aim host.here true draft.directory = some base →
      Draft.Lands done host.disk host.here (base ++ [draft.name]) other → other = draft.data) :
    after.disk.Has after.here draft.path draft.data := by
  rw [ended.here_eq]
  exact ended.placed.put.has ready.above ready.isName ready.lasting hlands hhas

/-- **A call of publish** keeps what was published, or replaces it under its own identifier. -/
theorem publish (h : Intact store calls host) (consistent : Consistent (calls ++ [call]))
    (hend : (store.publish call.bundleId call.built).MayEnd host call.result after) :
    Intact store (calls ++ [call]) after := by
  have hmem : call ∈ calls ++ [call] := by simp
  have haddressed : Addressed call.built.chunks := consistent.addressed hmem
  obtain ⟨done, ended⟩ := exists_ended h.neat haddressed (consistent.no_null call hmem) hend
  have hput := ended.placed.put
  have hneat : Neat store after.disk after.here := by
    rw [ended.here_eq]
    exact h.neat.put hput
  have hhas : call.published = true → ∀ draft ∈ store.drafts call.bundleId call.built,
      after.disk.Has after.here draft.path draft.data := by
    intro hpublished draft hdraft
    rw [ended.here_eq]
    exact ended.placed.has draft (by rwa [ended.all hpublished])
  refine ⟨hneat, fun bundleId built hlatest => ?_, fun bundleId base text hbase hfile => ?_,
    fun bundleId built hlatest => ?_, fun bundleId built hlatest chunk hchunk => ?_⟩
  · rw [latest?_concat] at hlatest
    split at hlatest
    · next hcall => exact hcall.1 ▸ ended.isName_of_published hcall.2
    · exact h.isName bundleId built hlatest
  · -- A manifest that is found has been put in place by this call, or it was there before.
    rw [ended.here_eq, hput.aim_eq] at hbase
    rw [latest?_concat]
    split
    · next hcall =>
      obtain ⟨rfl, hpublished⟩ := hcall
      have hid := ended.isName_of_published hpublished
      have hnew := (hhas hpublished (store.manifestDraft call.bundleId call.built.manifest)
        (by simp [Store.drafts])).content?_eq
      have hready := hneat.ready_manifest hid call.built.manifest
      obtain ⟨base', hbase', hfile'⟩ := hready.tidy.file_of_content? hready.above hready.isName hnew
      obtain rfl : base = base' := by
        rw [ended.here_eq, hput.aim_eq] at hbase'
        exact Option.some.inj (hbase.symm.trans hbase')
      have htext : Entry.file text = .file (Store.textOf call.built.manifest.document) :=
        Option.some.inj (hfile.symm.trans hfile')
      exact ⟨call.built, rfl, Entry.file.inj htext⟩
    · next hother =>
      have hlasting := not_temporaryKey (isSuffix_manifest.not_isTemporary bundleId) base
      rcases hput.file_from hlasting hfile with hbefore | hlands
      · exact h.manifest_eq bundleId base text hbase hbefore
      · exact absurd (ended.manifest_of_lands haddressed hlands) hother
  · rw [latest?_concat] at hlatest
    split at hlatest
    · next hcall =>
      obtain ⟨rfl, hpublished⟩ := hcall
      obtain rfl := Option.some.inj hlatest
      exact hhas hpublished (store.manifestDraft call.bundleId call.built.manifest) (by simp [Store.drafts])
    · next hother =>
      have hready := h.neat.ready_manifest (h.isName bundleId built hlatest) built.manifest
      refine has_after ended hready (h.manifest bundleId built hlatest) fun base other hbase hlands => ?_
      exact absurd (ended.manifest_of_lands haddressed hlands) hother
  · rw [latest?_concat] at hlatest
    split at hlatest
    · next hcall =>
      obtain ⟨rfl, hpublished⟩ := hcall
      obtain rfl := Option.some.inj hlatest
      refine hhas hpublished (store.chunkDraft call.bundleId chunk) ?_
      rw [Store.drafts, Store.contentDrafts]
      exact List.mem_append_left _ (List.mem_append_left _ (List.mem_map_of_mem hchunk))
    · next hother =>
      obtain ⟨earlier, hearlier, rfl, rfl⟩ := exists_call hlatest
      have hhash := consistent.hash_eq earlier (List.mem_append_left _ hearlier) chunk hchunk
      have hid := h.isName earlier.bundleId earlier.built hlatest
      have hready := h.neat.ready_chunk hid hhash
      refine has_after ended hready (h.chunks _ _ hlatest chunk hchunk) fun base other hbase hlands => ?_
      obtain ⟨draft, hdraft, rfl, base', hbase', hkey⟩ := hlands
      obtain ⟨rfl, hname⟩ := List.append_inj' hkey rfl
      have hname : (store.chunkDraft earlier.bundleId chunk).name = draft.name := by simpa using hname
      rw [Store.chunkDraft, hhash] at hname
      -- What takes the place of a chunk has the same digest, so it has the same content.
      obtain ⟨chunk', hchunk', rfl, hdigest⟩ := chunk_of_name haddressed (ended.mem draft hdraft) hname.symm
      have hsame := h.neat.bundleId_eq hid (ended.isName _ hdraft) hbase hbase'
      exact (consistent.distinct earlier (List.mem_append_left _ hearlier) call hmem hsame chunk hchunk
        chunk' hchunk' hdigest.symm).symm

end Intact

/-! ### Whole histories -/

lemma Vacant.tidy {directory : Path} (h : Vacant disk here directory) : Tidy disk here directory :=
  fun base hbase names hnames => Or.inl ((h base hbase).2 names hnames)

lemma isName_bundles : IsName (utf8 "bundles") := by constructor <;> decide
lemma isName_manifests : IsName (utf8 "manifests") := by constructor <;> decide
lemma isName_chunks : IsName (utf8 "chunks") := by constructor <;> decide

variable {out : Path}

lemma neat_below (hout : (0 : UInt8) ∉ out.text) (vacant : (Store.below out).IsVacant disk here) :
    Neat (.below out) disk here where
  open_bundles := isName_bundles.open_join hout
  open_manifests := isName_manifests.open_join hout
  open_chunks := isName_chunks.open_join hout
  tidy_bundles := vacant.bundles.tidy
  tidy_manifests := vacant.manifests.tidy
  tidy_chunks := vacant.chunks.tidy

lemma intact_start (neat : Neat store host.disk host.here)
    (vacant : Vacant host.disk host.here store.manifests) : Intact store [] host where
  neat := neat
  isName _ _ hlatest := nomatch hlatest
  manifest_eq bundleId base text hbase hfile := by
    rw [(vacant base hbase).2 _ (by simp)] at hfile
    cases hfile
  manifest _ _ hlatest := nomatch hlatest
  chunks _ _ hlatest := nomatch hlatest

lemma History.intact (h : History store start calls host) (neat : Neat store start.disk start.here)
    (vacant : Vacant start.disk start.here store.manifests) (consistent : Consistent calls) :
    Intact store calls host := by
  induction h with
  | start => exact intact_start neat vacant
  | publish h next ih => exact (ih consistent.of_append).publish consistent next

/-- A program that only makes directories, and fails, whatever happens. -/
def Futile {α : Type} (program : Program α) : Prop :=
  ∀ host result after, program.MayEnd host result after →
    after.here = host.here ∧ (∃ failure, result = .error failure) ∧ Furnished host.disk after.disk

lemma Futile.bind {α β : Type} {program : Program α} (h : Futile program) (next : α → Program β) :
    Futile (program >>= next) := by
  intro host result after hend
  rcases hend.bind with ⟨failure, hfirst, rfl⟩ | ⟨value, between, hfirst, -⟩
  · obtain ⟨hhere, -, hfurnished⟩ := h host _ after hfirst
    exact ⟨hhere, ⟨failure, rfl⟩, hfurnished⟩
  · obtain ⟨-, ⟨failure, hnever⟩, -⟩ := h host _ between hfirst
    cases hnever

lemma futile_writeAtomically {directory : Path} {last name : Bytes}
    (hdirectory : (0 : UInt8) ∈ directory.text)
    (hlast : IsName last) (hname : IsName name) (data : Bytes) :
    Futile (writeAtomically ((directory.join last).join name) data) := by
  intro host result after h
  refine mayEnd_writeAtomically_of_null (hlast.unended_join directory) (hlast.null_join hdirectory) ?_ hname h
  rwa [hlast.fileName_join]

lemma futile_publish (hout : (0 : UInt8) ∈ out.text) (usable : isUsable bundleId = true)
    (hnull : (0 : UInt8) ∉ bundleId) (addressed : Addressed built.chunks) :
    Futile ((Store.below out).publish bundleId built) := by
  have hid : IsName bundleId := isName_of_usable usable hnull
  rw [Store.publish, Store.writeChunks, check_eq usable, Program.done_bind]
  rcases hchunks : built.chunks with _ | ⟨chunk, rest⟩
  · have hbundle : Futile ((Store.below out).writeBundle bundleId built.bundle) := by
      rw [Store.writeBundle, check_eq usable, Program.done_bind]
      exact futile_writeAtomically hout isName_bundles
        (isSuffix_bundle.isName hid.no_slash hid.no_null) _
    exact hbundle.bind _
  · have hchunk : Futile (writeAtomically ((Store.below out).chunkFile bundleId chunk.info.hash)
        chunk.content) := by
      have hhash := addressed.hash_eq chunk (by simp [hchunks])
      rw [hhash]
      exact futile_writeAtomically (isName_chunks.null_join hout) hid (isName_chunk _) _
    exact ((hchunk.bind _).bind _).bind _

/-- Below a path with a null byte only directories are ever made. -/
lemma History.furnished (h : History (.below out) start calls host) (hout : (0 : UInt8) ∈ out.text)
    (consistent : Consistent calls) : host.here = start.here ∧ Furnished start.disk host.disk := by
  induction h with
  | start => exact ⟨rfl, Furnished.refl _⟩
  | @publish calls call host after h next ih =>
    obtain ⟨hhere, hfurnished⟩ := ih consistent.of_append
    have hcall : call ∈ calls ++ [call] := by simp
    by_cases husable : isUsable call.bundleId = true
    · obtain ⟨hhere', -, hfurnished'⟩ := futile_publish hout husable (consistent.no_null call hcall)
        (consistent.addressed hcall) host _ after next
      exact ⟨hhere'.trans hhere, hfurnished.trans hfurnished'⟩
    · obtain ⟨-, rfl⟩ := mayEnd_publish_unusable husable next
      exact ⟨hhere, hfurnished⟩

/-- Where a path with a null byte leads there is no file, since there was none before. -/
lemma content?_of_null {directory : Path} {last name : Bytes} (hdirectory : (0 : UInt8) ∈ directory.text)
    (hlast : IsName last) (hname : IsName name) (vacant : Vacant disk here (directory.join last))
    {later : Disk} (h : Furnished disk later) :
    later.content? here ((directory.join last).join name) = none := by
  unfold content? Disk.read
  rw [resolve_join_of_null hname (hlast.null_join hdirectory)]
  simp only [Bool.not_true, Bool.false_eq_true, if_false]
  rcases hresolve : later.resolve here true (directory.join last) with reason | place
  · rfl
  cases place with
  | absent key trailing => rfl
  | present place entry =>
    have hthere : later.standingEntry place = some entry := resolve_isOn hresolve
    cases place with
    | detached parent =>
      obtain rfl : Entry.directory = entry := Option.some.inj hthere
      rfl
    | inside key =>
      have hkept : Kept (fun _ => False) disk later := h.kept
      have haim := aim_of_present hresolve
      rw [hkept.aim_eq fun _ _ => not_false] at haim
      have hfind : later.find? key = some entry := hthere
      rcases (h key).free (vacant key haim).1 with hnone | hmade
      · rw [hnone] at hfind
        cases hfind
      · rw [hmade, Option.some.injEq] at hfind
        subst hfind
        rfl

/-- What is known of a file that is found under the name of a manifest. -/
structure Refers (store : Store) (calls : List Call) (host : Host) (bundleId text : Bytes)
    (built : Trace.Built) : Prop where
  latest : latest? calls bundleId = some built
  text_eq : text = Store.textOf built.manifest.document
  chunks : ∀ info ∈ built.manifest.chunks, ∃ chunk ∈ built.chunks, chunk.info = info ∧
    host.disk.content? host.here (store.chunkFile bundleId info.hash) = some chunk.content

lemma Intact.refers (h : Intact store calls host) (consistent : Consistent calls) (hid : IsName bundleId)
    {text : Bytes} (hread : host.disk.content? host.here (store.manifestFile bundleId) = some text) :
    ∃ built, Refers store calls host bundleId text built := by
  obtain ⟨built, hlatest, htext⟩ := h.latest_of_content hid hread
  obtain ⟨call, hcall, -, rfl⟩ := exists_call hlatest
  refine ⟨call.built, hlatest, htext, fun info hinfo => ?_⟩
  obtain ⟨chunk, hchunk, rfl⟩ := consistent.listed call hcall info hinfo
  exact ⟨chunk, hchunk, rfl, (h.chunks bundleId call.built hlatest chunk hchunk).content?_eq⟩

lemma latest?_of_failed (hfailed : call.published = false) (bundleId : Bytes) :
    latest? (calls ++ [call]) bundleId = latest? calls bundleId := by
  rw [latest?_concat, if_neg (by simp [hfailed])]

/-- **Manifests refer to chunks that are there.** Publishing starts below a directory where nothing has been
published, and any number of calls follow, with any part of any of them failing. If there is a manifest
under an identifier, it is that of the build that was published last, and for each of its entries there is a
file with exactly the content of the chunk of that entry. A further call that fails, under whichever
identifier, leaves the manifest and the files of its chunks byte for byte. -/
theorem manifest_refers_to_chunks (vacant : (Store.below out).IsVacant start.disk start.here)
    (consistent : Consistent calls) (history : History (.below out) start calls host)
    (usable : isUsable bundleId = true) (hnull : (0 : UInt8) ∉ bundleId) {text : Bytes}
    (hread : host.disk.content? host.here ((Store.below out).manifestFile bundleId) = some text) :
    ∃ built, Refers (.below out) calls host bundleId text built ∧
      ∀ call after, call.published = false → Consistent (calls ++ [call]) →
        ((Store.below out).publish call.bundleId call.built).MayEnd host call.result after →
        after.disk.content? after.here ((Store.below out).manifestFile bundleId) = some text ∧
          ∀ info ∈ built.manifest.chunks,
            after.disk.content? after.here ((Store.below out).chunkFile bundleId info.hash) =
              host.disk.content? host.here ((Store.below out).chunkFile bundleId info.hash) := by
  have hid : IsName bundleId := isName_of_usable usable hnull
  by_cases hout : (0 : UInt8) ∈ out.text
  · obtain ⟨hhere, hfurnished⟩ := history.furnished hout consistent
    have hnone := content?_of_null hout isName_manifests
      (isSuffix_manifest.isName hid.no_slash hid.no_null) vacant.manifests hfurnished
    rw [← hhere] at hnone
    rw [Store.manifestFile, Store.below, hnone] at hread
    cases hread
  have hintact : Intact (.below out) calls host :=
    history.intact (neat_below hout vacant) vacant.manifests consistent
  obtain ⟨built, hrefers⟩ := hintact.refers consistent hid hread
  refine ⟨built, hrefers, fun call after hfailed consistent' hend => ?_⟩
  have hafter := hintact.publish consistent' hend
  have hlatest : latest? (calls ++ [call]) bundleId = some built :=
    (latest?_of_failed hfailed bundleId).trans hrefers.latest
  refine ⟨hrefers.text_eq ▸ (hafter.manifest bundleId built hlatest).content?_eq, fun info hinfo => ?_⟩
  obtain ⟨chunk, hchunk, rfl, hbefore⟩ := hrefers.chunks info hinfo
  rw [hbefore]
  exact (hafter.chunks bundleId built hlatest chunk hchunk).content?_eq

/-! ### A build that is published twice -/

lemma refused_writeAtomically {directory : Path} {name : Bytes} (hdirectory : directory.Unended)
    (hname : IsName name) (data : Bytes) (host : Host) :
    ∃ failure, (writeAtomically (directory.join name) data).MayEnd host (.error failure) host := by
  have hempty : ¬ directory.isEmpty = true := by
    rw [Path.isEmpty, List.isEmpty_iff]
    exact hdirectory.ne_nil
  have hparent : ∃ failure, (ensureParent (directory.join name)).MayEnd host (.error failure) host := by
    rw [ensureParent, hdirectory.parent_join hname, if_neg hempty]
    exact ⟨_, .ask (.failed (@Host.Fails.makeDirectories _ _ .noEntry _ (Furnished.refl _))) (.fail _ _)⟩
  obtain ⟨failure, hparent⟩ := hparent
  exact ⟨failure, hparent.error_bind _⟩

/-- A chunk of one byte, named by its digest. -/
def oneByteChunk (b : UInt8) : Manifest.Chunk := .ofContent { hash := Sha256.hex [b], size := 1 } [b]

/-- A build of one chunk. -/
def oneByteBuilt (b : UInt8) : Trace.Built where
  bundle := {}
  manifest := { chunks := [(oneByteChunk b).info] }
  chunks := [oneByteChunk b]

lemma content_oneByteChunk (b : UInt8) : (oneByteChunk b).content = [b] := rfl

/-- Publishing a build under an identifier in a directory that does not exist yet. -/
def republish (b : UInt8) : Program Store.Published :=
  (Store.below ⟨utf8 "o"⟩).publish (utf8 "b") (oneByteBuilt b)

lemma refused_republish (b : UInt8) (host : Host) :
    ∃ failure, (republish b).MayEnd host (.error failure) host := by
  have hid : IsName (utf8 "b") := by constructor <;> decide
  have hdirectory : ((Store.below ⟨utf8 "o"⟩).chunkDirectory (utf8 "b")).Unended := hid.unended_join _
  obtain ⟨failure, hfailed⟩ := refused_writeAtomically hdirectory (isName_chunk [b]) [b] host
  have hchunk := hfailed.error_bind fun _ => (Store.below ⟨utf8 "o"⟩).writeEach (utf8 "b") []
  refine ⟨failure, ?_⟩
  rw [republish, Store.publish, Store.writeChunks, check_eq (by decide), Program.done_bind]
  exact (hchunk.error_bind _).error_bind _

lemma vacant_empty (directory : Path) : Vacant {} here directory := by
  intro base _
  have hfind : ∀ names, names ≠ [] → Disk.find? {} names = none := fun names hnames => if_neg hnames
  refine ⟨?_, fun names hnames => hfind _ (by simp [hnames])⟩
  rcases base with _ | ⟨first, rest⟩
  · exact Or.inr rfl
  · exact Or.inl (hfind _ (by simp))

/-- The first build has been published, and the next one has failed at its first write. -/
theorem manifest_refers_to_chunks_republished :
    ∃ value host text failure,
      History (.below ⟨utf8 "o"⟩) {} [⟨utf8 "b", oneByteBuilt 120, .ok value⟩] host ∧
      (republish 121).MayEnd host (.error failure) host ∧
      Refers (.below ⟨utf8 "o"⟩) [⟨utf8 "b", oneByteBuilt 120, .ok value⟩] host (utf8 "b") text
        (oneByteBuilt 120) ∧
      host.disk.content? host.here ((Store.below ⟨utf8 "o"⟩).manifestFile (utf8 "b")) = some text := by
  obtain ⟨value, hvalue⟩ : ∃ value, ((republish 120).runOn {}).1 = .ok value :=
    ⟨⟨⟨utf8 "o/bundles/b.bundle.json"⟩, ⟨utf8 "o/manifests/b.manifest.json"⟩, ⟨utf8 "o/chunks/b"⟩⟩,
      by decide +kernel⟩
  obtain ⟨text, hread⟩ : ∃ text, ((republish 120).runOn {}).2.disk.content? ((republish 120).runOn {}).2.here
      ((Store.below ⟨utf8 "o"⟩).manifestFile (utf8 "b")) = some text := by
    rw [← Option.isSome_iff_exists]
    decide +kernel
  have hpublished := Program.mayEnd_runOn (republish 120) {}
  rw [hvalue] at hpublished
  obtain ⟨failure, hfailed⟩ := refused_republish 121 ((republish 120).runOn {}).2
  have hdigest : Sha256.hex [120] ≠ Sha256.hex [121] := by decide +kernel
  have hconsistent : ∀ result,
      Consistent [⟨utf8 "b", oneByteBuilt 120, .ok value⟩, ⟨utf8 "b", oneByteBuilt 121, result⟩] := by
    intro result
    refine ⟨?_, ?_, ?_, ?_⟩
    · simp
      decide
    · simp [oneByteBuilt, content_oneByteChunk]
      exact ⟨rfl, rfl⟩
    · simp [oneByteBuilt]
    · simp [oneByteBuilt, content_oneByteChunk, hdigest, hdigest.symm]
  have hconsistent' : Consistent [⟨utf8 "b", oneByteBuilt 120, .ok value⟩] :=
    Consistent.of_append (hconsistent (.ok value))
  obtain ⟨built, hrefers, hlasting⟩ := manifest_refers_to_chunks
    ⟨vacant_empty _, vacant_empty _, vacant_empty _⟩ hconsistent' (.publish .start hpublished) (by decide)
    (by decide) hread
  obtain rfl : oneByteBuilt 120 = built := Option.some.inj hrefers.latest
  obtain ⟨hafter, -⟩ := hlasting ⟨utf8 "b", oneByteBuilt 121, .error _⟩ _ rfl (hconsistent _) hfailed
  exact ⟨value, _, text, _, .publish .start hpublished, hfailed, hrefers, hafter⟩

end Chronicle.Artifact
