import Chronicle.Artifact.Store
import Chronicle.Proofs.Storage.AllOrNothing

/-!
What publishing does to the disk, whatever fails.

The files of a bundle are written one after the other: its chunks, the bundle, the manifest. Their names
tell them apart, since a digest contains no dot and the two suffixes differ. Publishing that fails has
written some of the chunks and perhaps the bundle; the manifest is there only if all of them are.
-/

namespace Chronicle.Artifact

open Disk Storage

variable {disk after : Disk} {here : Standing} {store : Store} {bundleId hash content : Bytes}

/-! ### Names -/

lemma isName_of_usable (h : isUsable bundleId = true) (hnull : (0 : UInt8) ∉ bundleId) :
    IsName bundleId := by
  simp only [isUsable, Bool.and_eq_true, Bool.not_eq_true', List.isEmpty_eq_false_iff, bne_iff_ne,
    List.any_eq_false, beq_iff_eq] at h
  obtain ⟨⟨⟨hne, hslash⟩, hdot⟩, hup⟩ := h
  exact ⟨hne, hdot, hup, fun hmem => hslash _ hmem rfl, hnull⟩

/-- The endings of artifact names, each of which makes a name of any beginning. -/
structure IsSuffix (suffix : Bytes) : Prop where
  long : 3 ≤ suffix.length
  no_slash : Bytes.slash ∉ suffix
  no_null : (0 : UInt8) ∉ suffix
  last : suffix.getLast? = some 110

lemma isSuffix_manifest : IsSuffix manifestSuffix := by constructor <;> decide
lemma isSuffix_bundle : IsSuffix bundleSuffix := by constructor <;> decide
lemma isSuffix_chunk : IsSuffix chunkSuffix := by constructor <;> decide

namespace IsSuffix

variable {suffix front : Bytes}

lemma isName (h : IsSuffix suffix) (hslash : Bytes.slash ∉ front) (hnull : (0 : UInt8) ∉ front) :
    IsName (front ++ suffix) := by
  have hlong := h.long
  refine ⟨fun hnil => ?_, fun hdot => ?_, fun hup => ?_, ?_, ?_⟩
  · have hlength := congrArg List.length hnil
    simp at hlength
    simp [hlength.2] at hlong
  · have hlength := congrArg List.length hdot
    simp at hlength
    omega
  · have hlength := congrArg List.length hup
    simp at hlength
    omega
  · simpa using ⟨hslash, h.no_slash⟩
  · simpa using ⟨hnull, h.no_null⟩

lemma not_isTemporary (h : IsSuffix suffix) (front : Bytes) : ¬ IsTemporary (front ++ suffix) := by
  refine Storage.not_isTemporary ?_
  rw [List.getLast?_append, h.last]
  rfl

end IsSuffix

lemma mem_digest {b : UInt8} (h : b ∈ Sha256.hex content) : b ≠ Bytes.slash ∧ b ≠ 0 ∧ b ≠ Bytes.dot := by
  rw [Sha256.hex, Bytes.hex, List.mem_flatMap] at h
  obtain ⟨byte, -, hb⟩ := h
  have hbyte := byte.toNat_lt
  have hne : ∀ digit < 16, b = Bytes.hexDigit digit → b ≠ Bytes.slash ∧ b ≠ 0 ∧ b ≠ Bytes.dot := by
    rintro digit hdigit rfl
    have h := hexDigit_ne digit hdigit
    exact ⟨h.1, h.2.1, h.2.2.1⟩
  simp only [List.mem_cons, List.not_mem_nil, or_false] at hb
  rcases hb with hhigh | hlow
  · exact hne _ (by omega) hhigh
  · exact hne _ (by omega) hlow

lemma isName_chunk (content : Bytes) : IsName (Sha256.hex content ++ chunkSuffix) :=
  isSuffix_chunk.isName (fun h => (mem_digest h).1 rfl) fun h => (mem_digest h).2.1 rfl

/-- A name that is a digest is no manifest and no bundle: these have a dot in front of their suffix. -/
lemma chunk_ne_suffixed (content front suffix : Bytes) :
    Sha256.hex content ++ chunkSuffix ≠ front ++ (Bytes.dot :: suffix) ++ chunkSuffix := by
  intro h
  have hdot : Bytes.dot ∈ Sha256.hex content := by
    rw [List.append_cancel_right h]
    simp
  exact (mem_digest hdot).2.2 rfl

lemma chunk_ne_manifest (content front : Bytes) :
    Sha256.hex content ++ chunkSuffix ≠ front ++ manifestSuffix := by
  have hsuffix : front ++ manifestSuffix = front ++ (Bytes.dot :: utf8 "manifest") ++ chunkSuffix := by
    rw [List.append_assoc]
    rfl
  rw [hsuffix]
  exact chunk_ne_suffixed content front _

lemma chunk_ne_bundle (content front : Bytes) :
    Sha256.hex content ++ chunkSuffix ≠ front ++ bundleSuffix := by
  have hsuffix : front ++ bundleSuffix = front ++ (Bytes.dot :: utf8 "bundle") ++ chunkSuffix := by
    rw [List.append_assoc]
    rfl
  rw [hsuffix]
  exact chunk_ne_suffixed content front _

/-- A bundle's name ends in "e" before its last suffix, a manifest's in "t". -/
lemma bundle_ne_manifest (front front' : Bytes) : front ++ bundleSuffix ≠ front' ++ manifestSuffix := by
  intro h
  have hback := congrArg List.reverse h
  simp only [List.reverse_append] at hback
  have hsix := congrArg (List.take 6) hback
  rw [List.take_append_of_le_length (by decide), List.take_append_of_le_length (by decide)] at hsix
  revert hsix
  decide

/-- A path has the identifier that its last name begins with, if the name ends as those of manifests do. -/
lemma bundleIdOf_eq_iff {path : Path} : bundleIdOf path = .ok bundleId ↔
    bundleId ≠ [] ∧ path.fileName = bundleId ++ manifestSuffix := by
  unfold bundleIdOf
  dsimp only
  constructor
  · intro h
    split at h
    · next hends =>
      cases h
      rw [Bool.and_eq_true, Bytes.endsWith, List.isSuffixOf_iff_suffix, bne_iff_ne] at hends
      obtain ⟨⟨front, hfront⟩, hlength⟩ := hends
      rw [← hfront] at hlength ⊢
      have hne : front ≠ [] := by
        rintro rfl
        exact hlength rfl
      simp [hne]
    · cases h
  · rintro ⟨hne, hname⟩
    have hends : (Bytes.endsWith path.fileName manifestSuffix &&
        path.fileName.length != manifestSuffix.length) = true := by
      rw [hname, Bool.and_eq_true, Bytes.endsWith, List.isSuffixOf_iff_suffix, bne_iff_ne]
      exact ⟨List.suffix_append _ _, by simp [hne]⟩
    rw [if_pos hends, hname]
    simp

/-! ### Directories -/

/-- The directories of a store can be named, and there are no links below them. -/
structure Neat (store : Store) (disk : Disk) (here : Standing) : Prop where
  open_bundles : store.bundles.Open
  open_manifests : store.manifests.Open
  open_chunks : store.chunks.Open
  tidy_bundles : Tidy disk here store.bundles
  tidy_manifests : Tidy disk here store.manifests
  tidy_chunks : Tidy disk here store.chunks

lemma Neat.put {written : Key → Bytes → Prop} (h : Neat store disk here) (hput : Put written disk after) :
    Neat store after here :=
  ⟨h.open_bundles, h.open_manifests, h.open_chunks, h.tidy_bundles.put hput, h.tidy_manifests.put hput,
    h.tidy_chunks.put hput⟩

/-! ### Files that are written in turn -/

/-- A file that is to be put in place. -/
structure Draft where
  directory : Path
  name : Bytes
  data : Bytes

namespace Draft

def path (draft : Draft) : Path := draft.directory.join draft.name

/-- What a file needs to be put in place: a directory without links and a name of its own. -/
structure Ready (draft : Draft) (disk : Disk) (here : Standing) : Prop where
  above : draft.directory.Open
  tidy : Tidy disk here draft.directory
  isName : IsName draft.name
  lasting : ¬ IsTemporary draft.name

/-- Two drafts do not put different contents in one place. -/
def Agree (disk : Disk) (here : Standing) (draft draft' : Draft) : Prop :=
  ∀ base, disk.aim here true draft.directory = some base → disk.aim here true draft'.directory = some base →
    draft.name = draft'.name → draft'.data = draft.data

lemma agree_of_name_ne {draft draft' : Draft} (h : draft.name ≠ draft'.name) :
    Agree disk here draft draft' :=
  fun _ _ _ hname => absurd hname h

/-- A content that one of the drafts puts at a place. -/
def Lands (drafts : List Draft) (disk : Disk) (here : Standing) (key : Key) (content : Bytes) : Prop :=
  ∃ draft ∈ drafts, content = draft.data ∧
    ∃ base, disk.aim here true draft.directory = some base ∧ key = base ++ [draft.name]

lemma Lands.mono {drafts drafts' : List Draft} (hsubset : drafts ⊆ drafts') (key : Key) (content : Bytes)
    (h : Lands drafts disk here key content) : Lands drafts' disk here key content := by
  obtain ⟨draft, hmem, h⟩ := h
  exact ⟨draft, hsubset hmem, h⟩

lemma Lands.lasting {drafts : List Draft} (ready : ∀ draft ∈ drafts, draft.Ready disk here) (key : Key)
    (content : Bytes) (h : Lands drafts disk here key content) : ¬ TemporaryKey key := by
  obtain ⟨draft, hmem, -, base, -, rfl⟩ := h
  exact not_temporaryKey (ready draft hmem).lasting base

lemma lands_put {written : Key → Bytes → Prop} (h : Put written disk after) (drafts : List Draft) :
    Lands drafts after here = Lands drafts disk here := by
  unfold Lands
  simp only [h.aim_eq]

/-- The files of some drafts are in place, and nothing else is new. -/
structure Placed (drafts : List Draft) (disk : Disk) (here : Standing) (after : Disk) : Prop where
  put : Put (Lands drafts disk here) disk after
  has : ∀ draft ∈ drafts, after.Has here draft.path draft.data

lemma placed_singleton {draft : Draft}
    (h : Filed disk here draft.directory draft.name draft.data after) : Placed [draft] disk here after where
  put := h.put.mono fun _ _ hlands => ⟨draft, List.mem_singleton_self draft, hlands⟩
  has other hother := by
    obtain rfl := List.mem_singleton.mp hother
    exact h.has

/-- Files stay in place while others are, unless one of these has another content. -/
lemma Placed.append {front back : List Draft} {mid : Disk} (h : Placed front disk here mid)
    (ready : ∀ draft ∈ front ++ back, draft.Ready disk here)
    (agree : ∀ draft ∈ front, ∀ draft' ∈ back, Agree disk here draft draft')
    (h' : Placed back mid here after) : Placed (front ++ back) disk here after where
  put := by
    have hback := h'.put
    rw [lands_put h.put] at hback
    exact (h.put.mono (Lands.mono (List.subset_append_left front back))).trans (Lands.lasting ready)
      (hback.mono (Lands.mono (List.subset_append_right front back)))
  has draft hdraft := by
    rcases List.mem_append.mp hdraft with hfront | hback
    · have hready := ready draft hdraft
      refine h'.put.has hready.above hready.isName hready.lasting (fun base other hbase hlands => ?_)
        (h.has draft hfront)
      rw [lands_put h.put] at hlands
      rw [h.put.aim_eq] at hbase
      obtain ⟨draft', hdraft', rfl, base', hbase', hkey⟩ := hlands
      obtain ⟨rfl, hname⟩ := List.append_inj' hkey rfl
      exact agree draft hfront draft' hdraft' base hbase hbase' (by simpa using hname)
    · exact h'.has draft hback

end Draft

/-! ### The files of a bundle -/

namespace Store

def chunkDraft (store : Store) (bundleId : Bytes) (chunk : Manifest.Chunk) : Draft :=
  ⟨store.chunkDirectory bundleId, chunk.info.hash ++ chunkSuffix, chunk.content⟩

def bundleDraft (store : Store) (bundleId : Bytes) (bundle : Trace.Bundle) : Draft :=
  ⟨store.bundles, bundleId ++ bundleSuffix, textOf bundle.document⟩

def manifestDraft (store : Store) (bundleId : Bytes) (manifest : Manifest) : Draft :=
  ⟨store.manifests, bundleId ++ manifestSuffix, textOf manifest.document⟩

/-- What is written before the manifest. -/
def contentDrafts (store : Store) (bundleId : Bytes) (built : Trace.Built) : List Draft :=
  built.chunks.map (store.chunkDraft bundleId) ++ [store.bundleDraft bundleId built.bundle]

def drafts (store : Store) (bundleId : Bytes) (built : Trace.Built) : List Draft :=
  store.contentDrafts bundleId built ++ [store.manifestDraft bundleId built.manifest]

end Store

/-- Chunks are named by the digests of their contents, and no two contents share a digest. -/
structure Addressed (chunks : List Manifest.Chunk) : Prop where
  hash_eq : ∀ chunk ∈ chunks, chunk.info.hash = Sha256.hex chunk.content
  distinct : ∀ chunk ∈ chunks, ∀ chunk' ∈ chunks,
    Sha256.hex chunk.content = Sha256.hex chunk'.content → chunk.content = chunk'.content

namespace Neat

variable {built : Trace.Built} {chunk : Manifest.Chunk}

lemma bundleId_eq (h : Neat store disk here) {other : Bytes} {base : Key} (hid : IsName bundleId)
    (hother : IsName other) (hbase : disk.aim here true (store.chunkDirectory bundleId) = some base)
    (hbase' : disk.aim here true (store.chunkDirectory other) = some base) : bundleId = other := by
  obtain ⟨above, -, rfl⟩ := h.tidy_chunks.aim_join h.open_chunks hid hbase
  obtain ⟨above', -, hkey⟩ := h.tidy_chunks.aim_join h.open_chunks hother hbase'
  simpa using (List.append_inj' hkey rfl).2

lemma ready_chunk (h : Neat store disk here) (hid : IsName bundleId)
    (hhash : chunk.info.hash = Sha256.hex chunk.content) :
    (store.chunkDraft bundleId chunk).Ready disk here where
  above := h.open_chunks.join hid
  tidy := h.tidy_chunks.join h.open_chunks hid
  isName := by
    rw [Store.chunkDraft, hhash]
    exact isName_chunk _
  lasting := isSuffix_chunk.not_isTemporary _

lemma ready_bundle (h : Neat store disk here) (hid : IsName bundleId) (bundle : Trace.Bundle) :
    (store.bundleDraft bundleId bundle).Ready disk here where
  above := h.open_bundles
  tidy := h.tidy_bundles
  isName := isSuffix_bundle.isName hid.no_slash hid.no_null
  lasting := isSuffix_bundle.not_isTemporary _

lemma ready_manifest (h : Neat store disk here) (hid : IsName bundleId) (manifest : Manifest) :
    (store.manifestDraft bundleId manifest).Ready disk here where
  above := h.open_manifests
  tidy := h.tidy_manifests
  isName := isSuffix_manifest.isName hid.no_slash hid.no_null
  lasting := isSuffix_manifest.not_isTemporary _

lemma ready_drafts (h : Neat store disk here) (hid : IsName bundleId) (addressed : Addressed built.chunks) :
    ∀ draft ∈ store.drafts bundleId built, draft.Ready disk here := by
  intro draft hdraft
  simp only [Store.drafts, Store.contentDrafts, List.mem_append, List.mem_map, List.mem_singleton]
    at hdraft
  rcases hdraft with (⟨chunk, hchunk, rfl⟩ | rfl) | rfl
  · exact h.ready_chunk hid (addressed.hash_eq chunk hchunk)
  · exact h.ready_bundle hid _
  · exact h.ready_manifest hid _

end Neat

lemma manifest_of_name {built : Trace.Built} {draft : Draft} {other : Bytes}
    (addressed : Addressed built.chunks) (hdraft : draft ∈ store.drafts bundleId built)
    (hname : draft.name = other ++ manifestSuffix) :
    bundleId = other ∧ draft = store.manifestDraft bundleId built.manifest := by
  simp only [Store.drafts, Store.contentDrafts, List.mem_append, List.mem_map, List.mem_singleton]
    at hdraft
  rcases hdraft with (⟨chunk, hchunk, rfl⟩ | rfl) | rfl
  · rw [Store.chunkDraft, addressed.hash_eq chunk hchunk] at hname
    exact absurd hname (chunk_ne_manifest _ _)
  · exact absurd hname (bundle_ne_manifest _ _)
  · exact ⟨List.append_cancel_right hname, rfl⟩

/-- Only chunks have names of chunks, and those of one name have one digest. -/
lemma chunk_of_name {built : Trace.Built} {draft : Draft} (addressed : Addressed built.chunks)
    (hdraft : draft ∈ store.drafts bundleId built)
    (hname : draft.name = Sha256.hex content ++ chunkSuffix) :
    ∃ chunk ∈ built.chunks, draft = store.chunkDraft bundleId chunk ∧
      Sha256.hex chunk.content = Sha256.hex content := by
  simp only [Store.drafts, Store.contentDrafts, List.mem_append, List.mem_map, List.mem_singleton]
    at hdraft
  rcases hdraft with (⟨chunk, hchunk, rfl⟩ | rfl) | rfl
  · rw [Store.chunkDraft, addressed.hash_eq chunk hchunk] at hname
    exact ⟨chunk, hchunk, rfl, List.append_cancel_right hname⟩
  · exact absurd hname.symm (chunk_ne_bundle _ _)
  · exact absurd hname.symm (chunk_ne_manifest _ _)

/-- The files of one bundle do not get in each other's way. -/
lemma agree_drafts {built : Trace.Built} (addressed : Addressed built.chunks) :
    (store.drafts bundleId built).Pairwise (Draft.Agree disk here) := by
  have hchunk : ∀ chunk ∈ built.chunks, ∀ suffix : Bytes,
      (∀ content front, Sha256.hex content ++ chunkSuffix ≠ front ++ suffix) →
      ∀ front, (store.chunkDraft bundleId chunk).name ≠ front ++ suffix := by
    intro chunk hmem suffix hne front
    rw [Store.chunkDraft, addressed.hash_eq chunk hmem]
    exact hne _ front
  rw [Store.drafts, Store.contentDrafts, List.pairwise_append, List.pairwise_append, List.pairwise_map]
  refine ⟨⟨?_, List.pairwise_singleton _ _, ?_⟩, List.pairwise_singleton _ _, ?_⟩
  · refine List.pairwise_of_forall_mem_list fun chunk hmem chunk' hmem' => ?_
    rintro base - - hname
    rw [Store.chunkDraft, Store.chunkDraft, addressed.hash_eq chunk hmem, addressed.hash_eq chunk' hmem']
      at hname
    exact (addressed.distinct chunk hmem chunk' hmem' (List.append_cancel_right hname)).symm
  · intro draft hdraft bundle hbundle
    obtain ⟨chunk, hmem, rfl⟩ := List.mem_map.mp hdraft
    obtain rfl := List.mem_singleton.mp hbundle
    exact Draft.agree_of_name_ne (hchunk chunk hmem _ chunk_ne_bundle bundleId)
  · intro draft hdraft manifest hmanifest
    obtain rfl := List.mem_singleton.mp hmanifest
    rcases List.mem_append.mp hdraft with hdraft | hdraft
    · obtain ⟨chunk, hmem, rfl⟩ := List.mem_map.mp hdraft
      exact Draft.agree_of_name_ne (hchunk chunk hmem _ chunk_ne_manifest bundleId)
    · obtain rfl := List.mem_singleton.mp hdraft
      exact Draft.agree_of_name_ne (bundle_ne_manifest bundleId bundleId)

/-! ### Publishing -/

namespace Draft

variable {draft draft' : Draft} {drafts : List Draft} {written : Key → Bytes → Prop} {host last : Host}

lemma Ready.put (h : draft.Ready disk here) (hput : Put written disk after) : draft.Ready after here :=
  ⟨h.above, h.tidy.put hput, h.isName, h.lasting⟩

lemma Agree.put (h : Agree disk here draft draft') (hput : Put written disk after) :
    Agree after here draft draft' := by
  intro base hbase hbase' hname
  rw [hput.aim_eq] at hbase hbase'
  exact h base hbase hbase' hname

lemma placed_nil (hput : Put (fun _ _ => False) disk after) : Placed [] disk here after :=
  ⟨hput.of_none, by simp⟩

end Draft

variable {α β : Type}

/-- A program puts the files of some drafts in place one after the other. If it fails it has done so with
those before the one at which it failed, whatever fails. -/
def Writes (drafts : List Draft) (program : Program α) : Prop :=
  ∀ host result last, (∀ draft ∈ drafts, draft.Ready host.disk host.here) →
    drafts.Pairwise (Draft.Agree host.disk host.here) → program.MayEnd host result last →
    last.here = host.here ∧ ∃ done rest, drafts = done ++ rest ∧
      Draft.Placed done host.disk host.here last.disk ∧ (rest = [] ↔ ∃ value, result = .ok value)

namespace Writes

lemma done (value : α) : Writes [] (Program.done value) := by
  intro host result last _ _ h
  obtain ⟨rfl, rfl⟩ := h.of_done
  exact ⟨rfl, [], [], rfl, Draft.placed_nil (Put.refl _), by simp⟩

lemma draft (draft : Draft) : Writes [draft] (writeAtomically draft.path draft.data) := by
  intro host result last ready _ h
  have hready := ready draft (List.mem_singleton_self draft)
  obtain ⟨hhere, ⟨⟨failure, rfl⟩, hput⟩ | ⟨rfl, hfiled⟩⟩ :=
    mayEnd_writeAtomically hready.tidy hready.above hready.isName hready.lasting h
  · exact ⟨hhere, [], [draft], rfl, Draft.placed_nil hput, by simp⟩
  · exact ⟨hhere, [draft], [], by simp, Draft.placed_singleton hfiled, by simp⟩

/-- **Programs in sequence** write the files of the first one and then those of the second one. -/
theorem bind {front back : List Draft} {program : Program α} {next : α → Program β}
    (h : Writes front program) (hnext : ∀ value, Writes back (next value)) :
    Writes (front ++ back) (program >>= next) := by
  intro host result last ready agree hend
  have hready : ∀ draft ∈ front, draft.Ready host.disk host.here :=
    fun draft hdraft => ready draft (List.mem_append_left _ hdraft)
  obtain ⟨hfront, hback, hacross⟩ := List.pairwise_append.mp agree
  rcases hend.bind with ⟨failure, hfirst, rfl⟩ | ⟨value, between, hfirst, hsecond⟩
  · obtain ⟨hhere, done, rest, rfl, hplaced, hrest⟩ := h host _ last hready hfront hfirst
    refine ⟨hhere, done, rest ++ back, by simp, hplaced, ?_⟩
    -- A program that failed has left something unwritten.
    have hne : rest ≠ [] := fun hnil => by
      obtain ⟨value, hvalue⟩ := hrest.mp hnil
      cases hvalue
    simp [hne]
  · obtain ⟨hhere, done, rest, rfl, hplaced, hrest⟩ := h host _ between hready hfront hfirst
    obtain rfl : rest = [] := hrest.mpr ⟨value, rfl⟩
    rw [List.append_nil] at ready hacross ⊢
    have hready' : ∀ draft ∈ back, draft.Ready between.disk between.here := by
      rw [hhere]
      exact fun draft hdraft => (ready draft (List.mem_append_right _ hdraft)).put hplaced.put
    have hagree' : back.Pairwise (Draft.Agree between.disk between.here) := by
      rw [hhere]
      exact hback.imp fun hagree => hagree.put hplaced.put
    obtain ⟨hhere', done', rest', rfl, hplaced', hrest'⟩ :=
      hnext value between result last hready' hagree' hsecond
    rw [hhere] at hplaced'
    refine ⟨hhere'.trans hhere, done ++ done', rest', by simp, hplaced.append ?_ ?_ hplaced', hrest'⟩
    · intro draft hdraft
      refine ready draft ?_
      rcases List.mem_append.mp hdraft with hmem | hmem
      · exact List.mem_append_left _ hmem
      · exact List.mem_append_right _ (List.mem_append_left _ hmem)
    · exact fun draft hdraft draft' hdraft' =>
        hacross draft hdraft draft' (List.mem_append_left _ hdraft')

lemma andDone {drafts : List Draft} {program : Program α} (h : Writes drafts program)
    (next : α → β) : Writes drafts (program >>= fun value => Program.done (next value)) := by
  have hboth := h.bind fun value => Writes.done (next value)
  rwa [List.append_nil] at hboth

end Writes

lemma writes_writeEach (store : Store) (bundleId : Bytes) (chunks : List Manifest.Chunk) :
    Writes (chunks.map (store.chunkDraft bundleId)) (store.writeEach bundleId chunks) := by
  induction chunks with
  | nil => exact Writes.done ()
  | cons chunk rest ih =>
    exact (Writes.draft (store.chunkDraft bundleId chunk)).bind fun _ => ih

lemma check_eq (h : isUsable bundleId = true) : Store.check bundleId = Program.done () := by
  rw [Store.check, checkId, if_pos h]
  rfl

/-- **Publishing** writes the chunks, the bundle and the manifest, in this order. -/
theorem writes_publish (store : Store) (h : isUsable bundleId = true) (built : Trace.Built) :
    Writes (store.drafts bundleId built) (store.publish bundleId built) := by
  have hchunks : Writes (built.chunks.map (store.chunkDraft bundleId))
      (store.writeChunks bundleId built.chunks) := by
    rw [Store.writeChunks, check_eq h, Program.done_bind]
    exact (writes_writeEach store bundleId built.chunks).andDone _
  have hbundle : Writes [store.bundleDraft bundleId built.bundle]
      (store.writeBundle bundleId built.bundle) := by
    rw [Store.writeBundle, check_eq h, Program.done_bind]
    exact Writes.draft _
  have hmanifest : Writes [store.manifestDraft bundleId built.manifest]
      (store.writeManifest bundleId built.manifest) := by
    rw [Store.writeManifest, check_eq h, Program.done_bind]
    exact Writes.draft _
  rw [Store.drafts, Store.contentDrafts, List.append_assoc]
  exact hchunks.bind fun chunks => hbundle.bind fun bundle => hmanifest.andDone _

lemma mayEnd_publish_unusable {built : Trace.Built} {host last : Host}
    {result : Except Failure Store.Published} (h : isUsable bundleId ≠ true)
    (hend : (store.publish bundleId built).MayEnd host result last) :
    (∃ failure, result = .error failure) ∧ last = host := by
  rw [Store.publish, Store.writeChunks, Store.check, checkId, if_neg h] at hend
  obtain ⟨rfl, rfl⟩ := hend.of_fail
  exact ⟨⟨_, rfl⟩, rfl⟩

end Chronicle.Artifact
