import Chronicle.Artifact.Store
import Chronicle.Commit.Journal
import Chronicle.Proofs.Json.Whole
import Chronicle.Proofs.System.Crashes

/-!
Directories and devices in the place of files.

A directory can be opened like a file, but not read; a device without end can be read, but its bytes fit into
no memory. What is asked before a file is read is whether its path leads to anything, and that both of them
do. So a program that reads stored files crashes where one of the files it comes to is a directory or such a
device, and nowhere else: whatever is missing, cannot be opened or cannot be used is passed over or reported.
Carrying out a commit reads no file at all, and the checkpoint of a commit that was read back can be printed.
-/

namespace Chronicle

/-- A path leads to something that can be opened like a file and is none: a directory, or a device without
end. -/
def Host.OpensNoFile (host : Host) (path : Path) : Prop :=
  host.limits.opening = true ∧ ∃ place, ∃ entry ∈ [Entry.directory, .fullDevice],
    host.disk.resolve host.here true path = .ok (.present place entry)

namespace Storage

variable {host : Host} {path : Path}

lemma opensNoFile_iff :
    host.OpensNoFile path ↔ host.disk.read host.here host.limits path = .unreadable ∨
      host.disk.read host.here host.limits path = .endless := by
  unfold Host.OpensNoFile Disk.read
  cases host.limits.opening with
  | false => simp
  | true =>
    rcases host.disk.resolve host.here true path with reason | place
    · simp
    · cases place with
      | absent key trailing => simp
      | present place entry => cases entry <;> simp

lemma status_of_opensNoFile (h : host.OpensNoFile path) :
    ∃ status, host.disk.status host.here path = .ok status := by
  obtain ⟨-, place, entry, -, hresolve⟩ := h
  unfold Disk.status
  rw [hresolve]
  exact ⟨_, rfl⟩

lemma read_of_status {reason : Errno} (h : host.disk.status host.here path = .error reason) :
    host.disk.read host.here host.limits path = .unopened := by
  unfold Disk.status at h
  unfold Disk.read
  split
  · rfl
  · split at h
    · next hresolve => rw [hresolve]
    · next hresolve => rw [hresolve]
    · cases h

/-! ### One file -/

lemma runOn_contentOf (host : Host) (path : Path) :
    (contentOf path).runOn host =
      (match host.disk.read host.here host.limits path with
        | .content content => .ok content
        | .unopened => .error (.reported (FileFault.openForRead path).problem)
        | .unreadable => .error (.crashed Errno.isDirectory.message)
        | .endless => .error (.crashed noMemory), host) := by
  rw [contentOf, Program.runOn_request_bind, Host.answer]
  dsimp only
  cases host.disk.read host.here host.limits path <;> rfl

lemma crashesOn_contentOf (host : Host) (path : Path) :
    (contentOf path).CrashesOn host ↔ host.OpensNoFile path := by
  rw [opensNoFile_iff, Program.CrashesOn, runOn_contentOf]
  cases host.disk.read host.here host.limits path <;> simp

lemma crashesOn_contentOf_bind {α : Type} (next : Bytes → Program α) :
    (contentOf path >>= next).CrashesOn host ↔
      (match host.disk.read host.here host.limits path with
        | .content content => (next content).CrashesOn host
        | .unopened => False
        | .unreadable | .endless => True) := by
  rw [Program.CrashesOn, Program.runOn_bind, runOn_contentOf]
  cases host.disk.read host.here host.limits path <;> simp [Program.CrashesOn]

lemma runOn_pathExists (host : Host) (path : Path) :
    (pathExists path).runOn host =
      (.ok (match host.disk.status host.here path with
        | .ok _ => true
        | .error _ => false), host) := by
  rw [pathExists, Program.runOn_request_bind, Host.answer]
  dsimp only
  cases host.disk.status host.here path <;> rfl

lemma runOn_isDirectory (host : Host) (path : Path) :
    (isDirectory path).runOn host =
      (.ok (match host.disk.status host.here path with
        | .ok status => decide (status.kind = .directory)
        | .error _ => false), host) := by
  rw [isDirectory, Program.runOn_request_bind, Host.answer]
  dsimp only
  cases host.disk.status host.here path <;> rfl

lemma crashesOn_pathExists {α : Type} {found missing : Program α} :
    (pathExists path >>= fun there => if there = true then found else missing).CrashesOn host ↔
      (match host.disk.status host.here path with
        | .ok _ => found.CrashesOn host
        | .error _ => missing.CrashesOn host) := by
  rw [Program.crashesOn_bind_of_ok (runOn_pathExists host path)]
  cases host.disk.status host.here path <;> simp

/-- **A file that is read if it is there**: in front of what does not crash, the only crash is that of
reading what is no file. -/
theorem crashesOn_read_if_there {α : Type} {next : Bytes → Program α} {missing : Program α}
    (hnext : ∀ content, (next content).Safe) (hmissing : missing.Safe) :
    (pathExists path >>= fun there =>
      if there = true then contentOf path >>= next else missing).CrashesOn host ↔
        host.OpensNoFile path := by
  rw [crashesOn_pathExists]
  rcases hstatus : host.disk.status host.here path with reason | status
  · refine iff_of_false (hmissing.not_crashesOn host) fun hopens => ?_
    obtain ⟨status, hthere⟩ := status_of_opensNoFile hopens
    rw [hthere] at hstatus
    cases hstatus
  · dsimp only
    rw [Program.crashesOn_bind_of_safe hnext, crashesOn_contentOf]

/-! ### Writing -/

lemma safe_failWith {α : Type} (fault : FileFault) : (failWith fault : Program α).Safe :=
  Program.safe_report _

lemma safe_ensureParent (path : Path) : (ensureParent path).Safe := by
  unfold ensureParent
  split
  · exact Program.safe_done ()
  · refine (Program.safe_request _).bind fun refusal => ?_
    cases refusal
    · exact Program.safe_done ()
    · exact safe_failWith _

lemma safe_replaceThrough (temporary target : Path) (data : Bytes) :
    (replaceThrough temporary target data).Safe := by
  refine (Program.safe_request _).bind fun result => ?_
  cases result with
  | unopened => exact safe_failWith _
  | cutShort => exact (Program.safe_request _).bind fun _ => safe_failWith _
  | written =>
    refine (Program.safe_request _).bind fun refusal => ?_
    cases refusal with
    | none => exact Program.safe_done target
    | some reason => exact (Program.safe_request _).bind fun _ => safe_failWith _

lemma safe_writeAtomically (target : Path) (data : Bytes) : (writeAtomically target data).Safe :=
  (safe_ensureParent target).bind fun _ => (Program.safe_request _).bind fun _ =>
    safe_replaceThrough _ target data

lemma safe_appendTo (path : Path) (data : Bytes) : (appendTo path data).Safe := by
  refine (safe_ensureParent path).bind fun _ => (Program.safe_request _).bind fun result => ?_
  cases result with
  | written => exact Program.safe_done path
  | unopened | cutShort => exact safe_failWith _

lemma safe_pathExists (path : Path) : (pathExists path).Safe := by
  refine (Program.safe_request _).bind fun status => ?_
  cases status <;> exact Program.safe_done _

lemma safe_fileSize (path : Path) : (fileSize path).Safe := by
  refine (Program.safe_request _).bind fun status => ?_
  rcases status with reason | ⟨kind, size⟩
  · exact Program.safe_done _
  · cases kind <;> exact Program.safe_done _

end Storage

/-! ### Spools -/

namespace Spool.Store

variable {host : Host}

lemma safe_file (store : Store) (bundleId : Bytes) : (store.file bundleId).Safe :=
  Program.safe_ofResult _ _

lemma safe_size (store : Store) (bundleId : Bytes) : (store.size bundleId).Safe := by
  refine (safe_file store bundleId).bind fun path => (Storage.safe_pathExists path).bind fun there => ?_
  split
  · refine (Storage.safe_fileSize path).bind fun size => ?_
    cases size
    · exact Program.safe_report _
    · exact Program.safe_done _
  · exact Program.safe_done 0

lemma safe_truncate (store : Store) (bundleId : Bytes) (size : Nat) :
    (store.truncate bundleId size).Safe := by
  refine (safe_size store bundleId).bind fun current => (safe_file store bundleId).bind fun path => ?_
  unfold cutFile
  split
  · exact Program.safe_done path
  · split
    · exact Program.safe_report _
    · refine (Program.safe_request _).bind fun refusal => ?_
      cases refusal
      · exact Program.safe_done path
      · exact Program.safe_report _

lemma safe_append (store : Store) (bundleId : Bytes) (events : List Event) :
    (store.append bundleId events).Safe := by
  refine (safe_file store bundleId).bind fun path => ?_
  split
  · exact Program.safe_done path
  · exact Storage.safe_appendTo path _

lemma safe_readLines (path : Path) (number : Nat) (lines : List Bytes) :
    (readLines path number lines).Safe := by
  induction lines generalizing number with
  | nil => exact Program.safe_done []
  | cons line rest ih =>
    unfold readLines
    split
    · exact ih _
    · split
      · exact (ih _).bind fun _ => Program.safe_done _
      · exact (Program.safe_request _).bind fun _ => ih _

lemma crashesOn_read (store : Store) (bundleId : Bytes) :
    (store.read bundleId).CrashesOn host ↔
      ∃ path, store.file? bundleId = .ok path ∧ host.OpensNoFile path := by
  refine Program.crashesOn_ofResult_bind.trans (exists_congr fun path => and_congr_right fun _ => ?_)
  exact Storage.crashesOn_read_if_there (fun _ => safe_readLines path 1 _) (Program.safe_done [])

end Spool.Store

/-! ### Commits -/

namespace Commit.Journal

variable {host : Host}

lemma safe_saveOffsets {offsets : Tail.Offsets} (h : Tail.Printable offsets) (path : Path) :
    (Tail.saveOffsets path offsets).Safe := by
  rw [Tail.saveOffsets_of_printable h]
  exact Storage.safe_writeAtomically _ _

lemma safe_runStep (journal : Journal) (spool : Spool.Store) {step : Step}
    (h : ∀ offsets, step = .saveCheckpoint offsets → Tail.Printable offsets) :
    (journal.runStep spool step).Safe := by
  cases step with
  | cutSpool bundleId size => exact (spool.safe_truncate _ _).bind fun _ => Program.safe_done ()
  | extendSpool bundleId events => exact (spool.safe_append _ _).bind fun _ => Program.safe_done ()
  | saveCheckpoint offsets =>
    exact (safe_saveOffsets (h offsets rfl) _).bind fun _ => Program.safe_done ()
  | saveUnpublished bundleIds =>
    exact (Storage.safe_writeAtomically _ _).bind fun _ => Program.safe_done ()
  | removeJournal =>
    refine (Program.safe_request _).bind fun refusal => ?_
    split
    · exact Program.safe_done ()
    · exact Program.safe_done ()
    · exact Program.safe_report _

lemma safe_runSteps (journal : Journal) (spool : Spool.Store) {steps : List Step}
    (h : ∀ offsets, .saveCheckpoint offsets ∈ steps → Tail.Printable offsets) :
    (journal.runSteps spool steps).Safe := by
  induction steps with
  | nil => exact Program.safe_done ()
  | cons step rest ih =>
    have hstep : ∀ offsets, step = .saveCheckpoint offsets → Tail.Printable offsets := by
      rintro offsets rfl
      exact h offsets List.mem_cons_self
    exact (safe_runStep journal spool hstep).bind fun _ =>
      ih fun offsets hoffsets => h offsets (List.mem_cons_of_mem _ hoffsets)

/-- Carrying out a commit reads nothing, and does not crash if its checkpoint can be printed. -/
lemma safe_apply (journal : Journal) (spool : Spool.Store) {pending : Pending}
    (h : Tail.Printable pending.checkpoint) : (journal.apply spool pending).Safe := by
  refine (safe_runSteps journal spool fun offsets hoffsets => ?_).bind fun _ => Program.safe_done _
  rcases List.mem_append.mp hoffsets with happend | hsave
  · obtain ⟨append, -, hstep⟩ := List.mem_flatMap.mp happend
    simp at hstep
  · obtain rfl : offsets = pending.checkpoint := by simpa using hsave
    exact h

lemma ok_of_bind {ε α β : Type} {result : Except ε α} {next : α → Except ε β} {value : β}
    (h : result >>= next = .ok value) : ∃ first, result = .ok first ∧ next first = .ok value := by
  cases result with
  | ok first => exact ⟨first, rfl, h⟩
  | error cause => cases h

lemma keys_of_offsets {members : List (Bytes × Json)} {offsets : List (Bytes × Nat)}
    (h : members.mapM (fun (path, value) => Pending.offsetOf path value) = .ok offsets) :
    offsets.map (·.1) = members.map (·.1) := by
  induction members generalizing offsets with
  | nil =>
    cases h
    rfl
  | cons member rest ih =>
    obtain ⟨path, value⟩ := member
    rw [List.mapM_cons] at h
    obtain ⟨entry, hentry, h⟩ := ok_of_bind h
    obtain ⟨more, hmore, h⟩ := ok_of_bind h
    cases h
    rw [List.map_cons, List.map_cons, ih hmore]
    dsimp only [Pending.offsetOf] at hentry
    split at hentry
    · cases hentry
      rfl
    · cases hentry

/-- The checkpoint of a commit that was read back can be printed. -/
lemma printable_of_ofDocument {document : Json} {pending : Pending} (hwhole : document.isWhole = true)
    (h : Pending.ofDocument document = .ok pending) : Tail.Printable pending.checkpoint := by
  unfold Pending.ofDocument at h
  split at h
  case h_2 => cases h
  next spools members unpublished _ hmembers _ =>
  obtain ⟨appends, -, h⟩ := ok_of_bind h
  obtain ⟨offsets, hoffsets, h⟩ := ok_of_bind h
  obtain ⟨names, -, h⟩ := ok_of_bind h
  cases h
  intro entry hentry
  have hkey : entry.1 ∈ members.map (·.1) := by
    rw [← keys_of_offsets hoffsets]
    exact List.mem_map_of_mem (Table.mem_of_mem_ofList hentry)
  obtain ⟨member, hmember, hpath⟩ := List.mem_map.mp hkey
  rw [← hpath]
  exact (Json.haveWhole_iff.mp (Json.isWhole_of_find? hwhole hmembers) member hmember).1

lemma printable_of_read {journal : Journal} {text : Bytes} {pending : Pending}
    (h : journal.read text = .ok pending) : Tail.Printable pending.checkpoint := by
  unfold read at h
  split at h
  · cases h
  next document hdocument =>
  split at h
  · cases h
  · next found hfound =>
    cases h
    exact printable_of_ofDocument (Json.isWhole_of_read? hdocument) hfound

lemma crashesOn_recover (journal : Journal) (spool : Spool.Store) :
    (journal.recover spool).CrashesOn host ↔ host.OpensNoFile journal.path := by
  refine Storage.crashesOn_read_if_there (fun content => ?_) (Program.safe_done false)
  refine Program.safe_ofResult_bind fun pending hread => (Program.safe_request _).bind fun _ => ?_
  exact (safe_apply journal spool (printable_of_read hread)).bind fun _ => Program.safe_done true

/-- The bundles that a list names; a list that cannot be used names none. -/
def named : Disk.ReadResult → Names
  | .content text =>
    match Json.read? text with
    | some (.array items) => .ofList (items.filterMap Json.string?)
    | _ => []
  | _ => []

/-- **Loading the list** gives the bundles that it names, or crashes where it is no file; it never reports a
problem. -/
theorem loadUnpublished_eq (journal : Journal) (host : Host) :
    (journal.loadUnpublished.runOn host).1 =
      match host.disk.read host.here host.limits journal.unpublished with
      | .unreadable => .error (.crashed Errno.isDirectory.message)
      | .endless => .error (.crashed Storage.noMemory)
      | result => .ok (named result) := by
  rw [loadUnpublished, Program.runOn_bind, Storage.runOn_pathExists]
  rcases hstatus : host.disk.status host.here journal.unpublished with reason | status
  · rw [Storage.read_of_status hstatus]
    rfl
  dsimp only
  rw [if_pos rfl, Program.runOn_bind, Program.runOn, Program.run_attempt, ← Program.runOn,
    Storage.runOn_contentOf]
  rcases host.disk.read host.here host.limits journal.unpublished with text | _ | _ | _
  · dsimp only [named]
    rcases Json.read? text with _ | document
    · rfl
    · cases document <;> rfl
  · rfl
  · rfl
  · rfl

lemma crashesOn_loadUnpublished (journal : Journal) :
    journal.loadUnpublished.CrashesOn host ↔ host.OpensNoFile journal.unpublished := by
  rw [Storage.opensNoFile_iff, Program.CrashesOn, loadUnpublished_eq]
  cases host.disk.read host.here host.limits journal.unpublished <;> simp

end Commit.Journal

/-! ### Artifacts -/

/-- A path leads to something that cannot be opened. -/
def Host.Withholds (host : Host) (path : Path) : Prop :=
  (∃ status, host.disk.status host.here path = .ok status) ∧
    host.disk.read host.here host.limits path = .unopened

namespace Artifact.Store

variable {host : Host} {store : Store} {bundleId : Bytes}

/-- The manifest of a bundle can be read. -/
def Shows (store : Store) (host : Host) (bundleId : Bytes) (manifest : Manifest) : Prop :=
  ∃ text document,
    host.disk.read host.here host.limits (store.manifestFile bundleId) = .content text ∧
    Json.read? text = some document ∧ Manifest.ofDocument document = .ok manifest

/-- The files of chunks are read in turn up to one that is no file. -/
def MeetsNoFile (store : Store) (host : Host) (bundleId : Bytes)
    (chunks : List Manifest.ChunkInfo) : Prop :=
  ∃ front info rest, chunks = front ++ info :: rest ∧
    (∀ other ∈ front, ¬ host.Withholds (store.chunkFile bundleId other.hash)) ∧
    host.OpensNoFile (store.chunkFile bundleId info.hash)

lemma meetsNoFile_cons {info : Manifest.ChunkInfo} {rest : List Manifest.ChunkInfo} :
    store.MeetsNoFile host bundleId (info :: rest) ↔
      host.OpensNoFile (store.chunkFile bundleId info.hash) ∨
        (¬ host.Withholds (store.chunkFile bundleId info.hash) ∧
          store.MeetsNoFile host bundleId rest) := by
  constructor
  · rintro ⟨front, found, behind, heq, hfront, hopens⟩
    cases front with
    | nil =>
      cases heq
      exact Or.inl hopens
    | cons first front =>
      cases heq
      exact Or.inr ⟨hfront info List.mem_cons_self, front, found, behind, rfl,
        fun other hother => hfront other (List.mem_cons_of_mem _ hother), hopens⟩
  · rintro (hopens | ⟨hfirst, front, found, behind, rfl, hfront, hopens⟩)
    · exact ⟨[], info, rest, rfl, fun _ h => absurd h List.not_mem_nil, hopens⟩
    · exact ⟨info :: front, found, behind, rfl, List.forall_mem_cons.mpr ⟨hfirst, hfront⟩, hopens⟩

lemma crashesOn_loadChunks (store : Store) (bundleId : Bytes) (chunks : List Manifest.ChunkInfo) :
    (store.loadChunks bundleId chunks).CrashesOn host ↔
      store.MeetsNoFile host bundleId chunks := by
  induction chunks with
  | nil =>
    refine iff_of_false ((Program.safe_done []).not_crashesOn host) ?_
    rintro ⟨front, info, rest, heq, -⟩
    simp at heq
  | cons info rest ih =>
    rw [meetsNoFile_cons, loadChunks]
    refine Storage.crashesOn_pathExists.trans ?_
    rw [Storage.crashesOn_contentOf_bind, Storage.opensNoFile_iff, Host.Withholds]
    rcases hstatus : host.disk.status host.here (store.chunkFile bundleId info.hash) with
      reason | status
    · -- A chunk that is missing is passed over.
      rw [Storage.read_of_status hstatus]
      simpa using ih
    rcases host.disk.read host.here host.limits (store.chunkFile bundleId info.hash) with
      content | _ | _ | _
    · refine (Program.crashesOn_bind_of_safe fun _ => Program.safe_done _).trans (ih.trans ?_)
      simp
    · simp
    · simp
    · simp

/-- Loading a bundle crashes where its manifest is no file, or where a chunk that the manifest lists is
none. -/
lemma crashesOn_load (store : Store) (bundleId : Bytes) :
    (store.load bundleId).CrashesOn host ↔ isUsable bundleId = true ∧
      (host.OpensNoFile (store.manifestFile bundleId) ∨
        ∃ manifest, store.Shows host bundleId manifest ∧
          store.MeetsNoFile host bundleId manifest.chunks) := by
  unfold load check checkId
  by_cases husable : isUsable bundleId = true
  · rw [if_pos husable, and_iff_right husable, Program.crashesOn_bind_of_ok rfl]
    refine (Storage.crashesOn_contentOf_bind _).trans ?_
    rw [Storage.opensNoFile_iff]
    unfold Shows
    rcases host.disk.read host.here host.limits (store.manifestFile bundleId) with text | _ | _ | _
    · dsimp only
      rcases hjson : Json.read? text with _ | document
      · simpa [hjson] using (Program.safe_report _).not_crashesOn host
      have hchunks : ∀ manifest : Manifest, (store.loadChunks bundleId manifest.chunks >>=
          fun chunks => Program.done (⟨manifest, chunks⟩ : Loaded)).CrashesOn host ↔
            store.MeetsNoFile host bundleId manifest.chunks := fun manifest =>
        (Program.crashesOn_bind_of_safe fun _ => Program.safe_done _).trans
          (crashesOn_loadChunks store bundleId manifest.chunks)
      refine Program.crashesOn_ofResult_bind.trans
        ((exists_congr fun manifest => and_congr_right fun _ => hchunks manifest).trans ?_)
      simp [hjson]
    · simp
    · simp
    · simp
  · rw [if_neg husable]
    exact iff_of_false ((Program.safe_report _).not_crashesOn host) fun h => husable h.1

end Artifact.Store

/-! ### All of them -/

/-- **Directories and devices without end, and nothing else, make a program that reads stored files crash.**
Reading a file crashes where its path leads to one of them, and it can be opened; so does reading a spool,
finding a journal again, loading the list of bundles to be published, and loading a bundle whose manifest, or
one of whose chunks, is no file. In every other case there is a value or a reported problem, and for the list
there is a value: the bundles that it names, and none if it is missing or cannot be used. -/
theorem crashes_iff_no_file (host : Host) :
    (∀ path, (Storage.contentOf path).CrashesOn host ↔ host.OpensNoFile path) ∧
    (∀ (store : Spool.Store) bundleId, (store.read bundleId).CrashesOn host ↔
      ∃ path, store.file? bundleId = .ok path ∧ host.OpensNoFile path) ∧
    (∀ (journal : Commit.Journal) spool,
      (journal.recover spool).CrashesOn host ↔ host.OpensNoFile journal.path) ∧
    (∀ journal : Commit.Journal,
      (journal.loadUnpublished.CrashesOn host ↔ host.OpensNoFile journal.unpublished) ∧
      (host.OpensNoFile journal.unpublished ∨ (journal.loadUnpublished.runOn host).1 =
        .ok (Commit.Journal.named
          (host.disk.read host.here host.limits journal.unpublished)))) ∧
    ∀ (store : Artifact.Store) bundleId, (store.load bundleId).CrashesOn host ↔
      Artifact.isUsable bundleId = true ∧
        (host.OpensNoFile (store.manifestFile bundleId) ∨
          ∃ manifest, store.Shows host bundleId manifest ∧
            store.MeetsNoFile host bundleId manifest.chunks) := by
  refine ⟨Storage.crashesOn_contentOf host, fun store bundleId => store.crashesOn_read bundleId,
    fun journal spool => journal.crashesOn_recover spool,
    fun journal => ⟨journal.crashesOn_loadUnpublished, ?_⟩,
    fun store bundleId => store.crashesOn_load bundleId⟩
  rw [Storage.opensNoFile_iff, Commit.Journal.loadUnpublished_eq]
  rcases host.disk.read host.here host.limits journal.unpublished with text | _ | _ | _
  · exact Or.inr rfl
  · exact Or.inr rfl
  · exact Or.inl (Or.inl rfl)
  · exact Or.inl (Or.inr rfl)

/-- A directory where a spool, the journal, the list of bundles and a manifest are looked for. -/
def misplacedDirectory : Host where
  disk := ⟨[([utf8 "a.jsonl"], .directory), ([utf8 "a.manifest.json"], .directory)]⟩

/-- With a directory in its place, each of them crashes, the list too. -/
theorem directory_in_place_crashes :
    (Storage.contentOf ⟨utf8 "a.jsonl"⟩).CrashesOn misplacedDirectory ∧
    (Spool.Store.read ⟨⟨[]⟩⟩ (utf8 "a")).CrashesOn misplacedDirectory ∧
    (Commit.Journal.recover ⟨⟨utf8 "a.jsonl"⟩, ⟨[]⟩, ⟨[]⟩⟩ ⟨⟨[]⟩⟩).CrashesOn misplacedDirectory ∧
    (Commit.Journal.loadUnpublished ⟨⟨[]⟩, ⟨[]⟩, ⟨utf8 "a.jsonl"⟩⟩).CrashesOn misplacedDirectory ∧
    (Artifact.Store.load ⟨⟨[]⟩, ⟨[]⟩, ⟨[]⟩⟩ (utf8 "a")).CrashesOn misplacedDirectory := by
  refine ⟨⟨_, rfl⟩, ⟨_, rfl⟩, ⟨_, rfl⟩, ⟨_, rfl⟩, ⟨_, rfl⟩⟩

end Chronicle
