import Chronicle.Proofs.Commit.Granted
import Chronicle.Proofs.Recorder.OncePerCycle
import Chronicle.Proofs.Recorder.Sifted
import Chronicle.Proofs.Tail.Reloaded

/-!
A cycle in which logs fail.

Nothing that happens to one log after it was found reaches another one, or the cycle as a whole. A first
cycle over logs without a finished line commits, for each log that can be read, the place behind its last
line break, and for a log that cannot be read nothing; such a log is reported. Besides the files of the
recorder's own state, nothing on the disk has changed. What does reach the cycle as a whole is the path of a
log that can be read: if it does not consist of whole characters the checkpoint cannot be printed, and the
commit stops behind its journal.
-/

namespace Chronicle

open Disk Program Storage Commit Tail

/-- The directory in which a recorder keeps its state. -/
def Config.stateDir (config : Config) : Path := config.outDir.join (utf8 "state")

namespace Recorder

/-- An output directory that can be written to, and holds no journal, no checkpoint and no list of
unpublished bundles: the directory for them is there, or is made when it is asked for. Where their temporary
files go there are at most files. -/
structure Vacant (config : Config) (host : Host) (made : Disk) (base : Key) : Prop extends
    Grants host made config.stateDir base where
  short : ∀ name ∈ recordNames,
    config.stateDir.text.length + 1 + (temporaryName name (List.replicate temporaryDigits 0)).length ≤
      longestPath
  free : ∀ name ∈ recordNames, made.find? (base ++ [name]) = none
  spare : ∀ name ∈ recordNames, ∀ digits, made.Writable (base ++ [temporaryName name digits])

/-- Some of the logs that a cycle finds have changed when it reads them, and cannot be read. No session
directory is among them. -/
structure Spoiled (recorder : Recorder) (looks : Looks) (host : Host) : Prop where
  found : ∀ log, looks log ≠ none → log ∈ recorder.discovered host
  apart : ∀ dir ∈ recorder.config.sessionDirs, looks (recorder.config.root.join dir) = none
  fails : ∀ log, looks log ≠ none → problem? looks host log ≠ none

/-- What a cycle reports that got no line from any log. -/
structure Idle (recorder : Recorder) (looks : Looks) (host : Host) (report : Report) : Prop where
  scanned : report.filesScanned = (recorder.discovered host).length
  failures : report.readFailures = (recorder.discovered host).filterMap (failure? looks host)
  no_lines : report.linesRead = 0 ∧ report.linesSkipped = 0
  no_events : report.eventsParsed = 0
  no_bundles : report.bundlesBuilt = 0 ∧ report.publishFailures = []

/-- The offsets after a first cycle: those of the logs that were read, behind the last line break. -/
structure Advanced (recorder : Recorder) (looks : Looks) (host : Host) (offsets : Offsets) : Prop where
  read : ∀ log ∈ recorder.discovered host, problem? looks host log = none →
    ∃ content place, host.disk.content? host.here log = some content ∧ BehindLastBreak content place ∧
      offsets.find? log.text = some place
  failed : ∀ log ∈ recorder.discovered host, problem? looks host log ≠ none → offsets.find? log.text = none
  unknown : ∀ log ∉ recorder.discovered host, offsets.find? log.text = none

/-- The paths of the logs that can be read consist of whole characters. -/
def Legible (recorder : Recorder) (looks : Looks) (host : Host) : Prop :=
  ∀ log ∈ recorder.discovered host, problem? looks host log = none → Utf8.isValid log.text = true

/-- Offsets have been committed: they are loaded from the checkpoint, and no journal is left. -/
structure Committed (recorder : Recorder) (offsets : Offsets) (after : Host) : Prop where
  reloaded : (loadOffsets recorder.config.checkpointPath).runOn after = (.ok offsets, after)
  no_journal : after.disk.status after.here recorder.config.journalPath = .error .noEntry

/-- A commit of offsets has stopped behind its journal: there is no checkpoint. -/
structure Abandoned (recorder : Recorder) (offsets : Offsets) (after : Host) : Prop where
  journal : after.disk.content? after.here recorder.config.journalPath =
    some (Journal.textOf { checkpoint := offsets })
  no_checkpoint : after.disk.status after.here recorder.config.checkpointPath = .error .noEntry

variable {recorder : Recorder} {looks : Looks} {host between : Host} {made : Disk} {base : Key}

/-! ### The state directory -/

lemma isName_of_recordNames : ∀ name ∈ recordNames, IsName name := by
  intro name hname
  have hnames : ∀ name ∈ recordNames, name ≠ [] ∧ name ≠ [Bytes.dot] ∧ name ≠ [Bytes.dot, Bytes.dot] ∧
      Bytes.slash ∉ name ∧ (0 : UInt8) ∉ name := by decide
  obtain ⟨hnil, hdot, hup, hslash, hnull⟩ := hnames name hname
  exact ⟨hnil, hdot, hup, hslash, hnull⟩

lemma length_temporaryName (name : Bytes) (digits : List Nat) :
    (temporaryName name digits).length = name.length + digits.length + 6 := by
  rw [temporaryName_eq]
  simp only [List.length_append, List.length_cons, List.length_nil, List.length_map]
  omega

lemma Vacant.room (h : Vacant recorder.config host made base) :
    Room host made recorder.config.stateDir base recordNames where
  toGrants := h.toGrants
  fits name hname := by
    have hlengths : ∀ name ∈ recordNames, name.length ≤ longestName := by decide
    have hshort := h.short name hname
    refine ⟨isName_of_recordNames name hname, hlengths name hname, ?_, h.is_open.no_null⟩
    rw [length_temporaryName] at hshort
    rw [h.is_open.toUnended.join_eq (isName_of_recordNames name hname), List.length_append, List.length_cons]
    omega
  temporary_fits name hname digits hdigits hlength := by
    have hlengths : ∀ name ∈ recordNames, name.length ≤ 19 := by decide
    have hlong := hlengths name hname
    have hshort := h.short name hname
    have htemporary : IsName (temporaryName name digits) :=
      isName_temporaryName (isName_of_recordNames name hname) hdigits
    refine ⟨htemporary, ?_, ?_, h.is_open.no_null⟩
    · rw [length_temporaryName, hlength, temporaryDigits, longestName]
      omega
    · rw [length_temporaryName, List.length_replicate] at hshort
      rw [h.is_open.toUnended.join_eq htemporary, List.length_append, List.length_cons,
        length_temporaryName, hlength]
      omega
  free name hname := Or.inl (h.free name hname)
  spare := h.spare

lemma room_of_same {directory : Path} {names : List Bytes} (h : Room host made directory base names)
    (hsame : host.Same between) : Room between made directory base names where
  is_open := h.is_open
  opening := hsame.limits ▸ h.opening
  unlimited := hsame.limits ▸ h.unlimited
  granted := by
    rw [hsame.disk, hsame.here]
    exact h.granted
  opens := hsame.here ▸ h.opens
  fits := h.fits
  temporary_fits := h.temporary_fits
  free := h.free
  spare := h.spare

lemma Vacant.missing (h : Vacant recorder.config host made base) {name : Bytes} (hname : name ∈ recordNames) :
    ∃ reason, host.disk.status host.here (recorder.config.stateDir.join name) = .error reason := by
  have hfits := h.room.fits name hname
  rcases there_or_nowhere hfits (h.runOn_ensureParent hfits.is_name) with hmade | ⟨reason, hnowhere⟩
  · have hopens : host.disk.Opens host.here recorder.config.stateDir base := hmade ▸ h.opens
    have hnone : host.disk.find? (base ++ [name]) = none := hmade ▸ h.free name hname
    have hleads : host.disk.Leads host.here true (recorder.config.stateDir.join name) (base ++ [name]) :=
      hopens.leads hfits fun _ target htarget => by simp [hnone] at htarget
    refine ⟨.noEntry, ?_⟩
    rw [status, hleads, placeAt, hnone]
  · refine ⟨reason, ?_⟩
    rw [status, hnowhere]

lemma extension_join {name : Bytes} (hname : IsName name) (directory : Path) :
    (directory.join name).extension = (Path.mk name).extension := by
  have hfile : (Path.mk name).fileName = name := by
    rw [Path.fileName, List.takeWhile_eq_self_iff.mpr hname.ne_slash, List.reverse_reverse]
  rw [Path.extension, Path.extension, hname.fileName_join, hfile]

lemma Spoiled.unaware (h : recorder.Spoiled looks host) {name : Bytes} (hname : name ∈ recordNames) :
    looks (recorder.config.stateDir.join name) = none := by
  have hnames : ∀ name ∈ recordNames, (Path.mk name).extension ≠ logExtension := by decide
  by_contra hlooks
  obtain ⟨dir, -, hfound⟩ := List.mem_flatMap.mp (h.found _ hlooks)
  refine hnames name hname ?_
  rw [← extension_join (isName_of_recordNames name hname) recorder.config.stateDir]
  exact Host.extension_of_found hfound

/-! ### Before logs are gathered -/

lemma runSeeing_pathExists {path : Path} (hlooks : looks path = none) {reason : Errno}
    (hstatus : host.disk.status host.here path = .error reason) :
    (pathExists path).runSeeing looks host = (.ok false, host) := by
  have honly : (pathExists path).Only (Request.Unaware looks) := by
    refine .bind (.request hlooks) fun status => ?_
    cases status <;> exact .done _
  rw [honly.runSeeing_eq, pathExists, Program.runOn_request_bind, Host.answer, hstatus]
  rfl

lemma runSeeing_replay (hlooks : looks recorder.config.journalPath = none) {reason : Errno}
    (hstatus : host.disk.status host.here recorder.config.journalPath = .error reason) :
    recorder.replay.runSeeing looks host = (.ok (), host) := by
  have hrecover : (recorder.config.journal.recover recorder.config.spool).runSeeing looks host =
      (.ok false, host) := by
    rw [Journal.recover, runSeeing_bind]
    have hpath := runSeeing_pathExists hlooks hstatus
    rw [show recorder.config.journal.path = recorder.config.journalPath from rfl, hpath]
    rfl
  rw [replay, runSeeing_bind, runSeeing_attempt, hrecover]
  rfl

lemma runSeeing_loadOffsets {path : Path} (hlooks : looks path = none) {reason : Errno}
    (hstatus : host.disk.status host.here path = .error reason) :
    ∃ message, (loadOffsets path).runSeeing looks host = (.ok .empty, host.log .debug message) := by
  rw [loadOffsets, runSeeing_bind, runSeeing_pathExists hlooks hstatus]
  exact ⟨_, rfl⟩

lemma runSeeing_loadUnpublished (hlooks : looks recorder.config.unpublishedPath = none) {reason : Errno}
    (hstatus : host.disk.status host.here recorder.config.unpublishedPath = .error reason) :
    recorder.config.journal.loadUnpublished.runSeeing looks host = (.ok [], host) := by
  rw [Journal.loadUnpublished, runSeeing_bind,
    show recorder.config.journal.unpublished = recorder.config.unpublishedPath from rfl,
    runSeeing_pathExists hlooks hstatus]
  rfl

/-- Without a journal, a checkpoint and a list, a cycle starts with nothing. -/
lemma runSeeing_opening (hhost : host.watches = []) (vacant : Vacant recorder.config host made base)
    (spoiled : recorder.Spoiled looks host) :
    ∃ cycleId between, recorder.opening.runSeeing looks host = (.ok (cycleId, .empty, []), between) ∧
      host.Same between := by
  -- Whatever has been logged by then, the same files are missing.
  have hmissing : ∀ {between : Host} {name : Bytes}, host.Same between → name ∈ recordNames →
      ∃ reason, between.disk.status between.here (recorder.config.stateDir.join name) = .error reason := by
    intro between name hsame hname
    rw [hsame.disk, hsame.here]
    exact vacant.missing hname
  let cycleId := Ident.short (utf8 "cycle") (Host.lastDigits 8 host.drawn)
  let tagged := { host with
    drawn := host.drawn + 1
    logger := { host.logger with context := cycleId } }
  have htagged : host.Same tagged := ⟨rfl, rfl, rfl, hhost⟩
  have hjournal : utf8 "commit-journal.json" ∈ recordNames := by decide
  have hcheckpoint : utf8 "tail-state.json" ∈ recordNames := by decide
  have hunpublished : utf8 "unpublished.json" ∈ recordNames := by decide
  obtain ⟨reason, hno⟩ := hmissing htagged hjournal
  have hreplay := runSeeing_replay (spoiled.unaware hjournal) hno
  obtain ⟨reason, hno⟩ := hmissing htagged hcheckpoint
  obtain ⟨message, hload⟩ := runSeeing_loadOffsets (spoiled.unaware hcheckpoint) hno
  have hloaded : host.Same (tagged.log .debug message) :=
    htagged.trans (Host.log_same htagged.watches _ _)
  obtain ⟨reason, hno⟩ := hmissing hloaded hunpublished
  have hlist := runSeeing_loadUnpublished (spoiled.unaware hunpublished) hno
  refine ⟨cycleId, _, ?_, hloaded⟩
  change ((recorder.replay >>= _).runSeeing looks tagged) = _
  rw [runSeeing_bind, hreplay]
  dsimp only
  rw [runSeeing_bind, show recorder.config.checkpointPath = recorder.config.stateDir.join
    (utf8 "tail-state.json") from rfl, hload]
  dsimp only
  rw [runSeeing_bind, hlist]
  rfl

/-! ### What is committed -/

/-- Whoever writes a file asks about no log. -/
lemma writeAtomically_unaware (looks : Looks) (target : Path) (data : Bytes) :
    (writeAtomically target data).Only (Request.Unaware looks) := by
  have hparent : (ensureParent target).Only (Request.Unaware looks) := by
    unfold ensureParent
    split
    · exact .done _
    · refine .bind (.request trivial) fun made => ?_
      cases made with
      | some reason => exact .fail _
      | none => exact .done _
  refine .bind hparent fun _ => .bind (.request trivial) fun draws => ?_
  refine .bind (.request trivial) fun result => ?_
  cases result with
  | unopened => exact .fail _
  | cutShort => exact .bind (.request trivial) fun _ => .fail _
  | written =>
    refine .bind (.request trivial) fun renamed => ?_
    cases renamed with
    | none => exact .done _
    | some reason => exact .bind (.request trivial) fun _ => .fail _

lemma saveOffsets_unaware (looks : Looks) (target : Path) (offsets : Offsets) :
    (saveOffsets target offsets).Only (Request.Unaware looks) := by
  unfold saveOffsets
  split
  · exact writeAtomically_unaware looks _ _
  · exact .fail _

lemma commit_unaware (looks : Looks) (journal : Journal) (spool : Spool.Store) {pending : Pending}
    (hnone : pending.appends = []) : (journal.commit spool pending).Only (Request.Unaware looks) := by
  refine .bind (writeAtomically_unaware looks _ _) fun _ => .bind ?_ fun _ => .done _
  rw [steps_of_no_appends hnone]
  refine .bind (.bind (saveOffsets_unaware looks _ _) fun _ => .done _) fun _ => ?_
  refine .bind (.bind (writeAtomically_unaware looks _ _) fun _ => .done _) fun _ => ?_
  refine .bind (.bind (.request trivial) fun removed => ?_) fun _ => .done _
  rcases removed with _ | reason
  · exact .done _
  · cases reason with
    | noEntry => exact .done _
    | _ => exact .fail _

lemma journal_eq_below (config : Config) : config.journal = .below config.stateDir := rfl

lemma runSeeing_commit (looks : Looks) (hsame : host.Same between)
    (vacant : Vacant recorder.config host made base) {offsets : Offsets} (printable : Printable offsets) :
    ∃ disk, Settled { checkpoint := offsets } made base disk ∧
      disk.Opens host.here recorder.config.stateDir base ∧
      (recorder.commit { checkpoint := offsets }).runSeeing looks between =
        (.ok (), { between with disk, drawn := between.drawn + 3 }) := by
  have hnone : ({ checkpoint := offsets } : Pending).appends = [] := rfl
  obtain ⟨disk, hsettled, hopens, hrun⟩ :=
    runOn_commit_of_room (room_of_same vacant.room hsame) hnone printable recorder.config.spool
  refine ⟨disk, hsettled, hsame.here ▸ hopens, ?_⟩
  have hcommit :=
    (commit_unaware looks recorder.config.journal recorder.config.spool hnone).runSeeing_eq between
  rw [journal_eq_below, hrun] at hcommit
  rw [commit, runSeeing_bind, runSeeing_attempt, journal_eq_below, hcommit]
  rfl

lemma runSeeing_commit_of_not_printable (looks : Looks) (hsame : host.Same between)
    (vacant : Vacant recorder.config host made base) {offsets : Offsets} (hnot : ¬ Printable offsets) :
    ∃ disk, Halted { checkpoint := offsets } made base disk ∧
      disk.Opens host.here recorder.config.stateDir base ∧
      (recorder.commit { checkpoint := offsets }).runSeeing looks between =
        (.error (.crashed brokenText), { between with disk, drawn := between.drawn + 1 }) := by
  have hnone : ({ checkpoint := offsets } : Pending).appends = [] := rfl
  obtain ⟨disk, hhalted, hopens, hrun⟩ :=
    runOn_commit_of_not_printable (room_of_same vacant.room hsame) hnone hnot recorder.config.spool
  refine ⟨disk, hhalted, hsame.here ▸ hopens, ?_⟩
  have hcommit :=
    (commit_unaware looks recorder.config.journal recorder.config.spool hnone).runSeeing_eq between
  rw [journal_eq_below, hrun] at hcommit
  rw [commit, runSeeing_bind, runSeeing_attempt, journal_eq_below, hcommit]

/-- The part of a cycle after logs have been gathered. -/
def closing (recorder : Recorder) (saved : Offsets) (unpublished : Names) (gathered : Gathered) :
    Program Report := do
  let pending := unpublished.foldl (fun table bundleId => table.insertIfNew bundleId []) gathered.events
  let prepared ← recorder.buildBundles (movedRanges saved gathered.offsets) pending.entries
    { unpublished := unpublished }
  recorder.commit
    { appends := prepared.appends
      checkpoint := gathered.offsets
      unpublished := prepared.unpublished }
  let (report, left) ← recorder.publishBuilds prepared.builds gathered.report prepared.unpublished
  recorder.saveUnpublished prepared.unpublished left
  Program.logInfo (summary report)
  return report

lemma runCycle_eq (recorder : Recorder) :
    recorder.runCycle = recorder.opening >>= fun start =>
      recorder.gather start.2.1 recorder.config.sessionDirs (.start start.1 start.2.1) >>= fun gathered =>
        recorder.closing start.2.1 start.2.2 gathered := by
  simp only [runCycle, opening, bind_assoc, pure_bind]
  rfl

lemma content?_of_opens (vacant : Vacant recorder.config host made base) {disk : Disk} {here : Standing}
    (hopens : disk.Opens here recorder.config.stateDir base) {name : Bytes} (hname : name ∈ recordNames)
    {content : Bytes} (hfile : disk.find? (base ++ [name]) = some (.file content)) :
    disk.content? here (recorder.config.stateDir.join name) = some content := by
  refine Disk.content?_eq (hopens.leads (vacant.room.fits name hname) fun _ target htarget => ?_) hfile
  rw [hfile] at htarget
  cases htarget

lemma status_of_opens (vacant : Vacant recorder.config host made base) {disk : Disk} {here : Standing}
    (hopens : disk.Opens here recorder.config.stateDir base) {name : Bytes} (hname : name ∈ recordNames)
    (hnone : disk.find? (base ++ [name]) = none) :
    disk.status here (recorder.config.stateDir.join name) = .error .noEntry := by
  have hleads : disk.Leads here true (recorder.config.stateDir.join name) (base ++ [name]) :=
    hopens.leads (vacant.room.fits name hname) fun _ target htarget => by simp [hnone] at htarget
  rw [status, hleads, placeAt, hnone]

/-- **Without new lines and without a list**, offsets are committed and nothing is built. -/
theorem runSeeing_closing (looks : Looks) (hsame : host.Same between)
    (vacant : Vacant recorder.config host made base) {gathered : Gathered} (hnone : gathered.events = .empty)
    (ascending : gathered.offsets.Ascending) (measured : Measured gathered.offsets)
    (printable : Printable gathered.offsets) :
    ∃ after, (recorder.closing .empty [] gathered).runSeeing looks between = (.ok gathered.report, after) ∧
      recorder.Committed gathered.offsets after ∧
      ∀ key, (∀ name, key ≠ base ++ [name]) → after.disk.find? key = made.find? key := by
  obtain ⟨disk, hsettled, hopens, hcommit⟩ := runSeeing_commit looks hsame vacant printable
  let committed := { between with disk, drawn := between.drawn + 3 }
  have halone : committed.watches = [] := hsame.watches
  have hlogged : committed.Same (committed.log .info (summary gathered.report)) := Host.log_same halone _ _
  have hhere : (committed.log .info (summary gathered.report)).here = host.here :=
    hlogged.here.trans hsame.here
  refine ⟨committed.log .info (summary gathered.report), ?_, ⟨?_, ?_⟩, fun key hkey => ?_⟩
  · rw [closing, hnone]
    change ((recorder.commit { checkpoint := gathered.offsets } >>= _).runSeeing looks between) = _
    rw [runSeeing_bind, hcommit]
    rfl
  · refine loadOffsets_offsetsText ascending printable measured ?_ ?_
    · rw [hlogged.limits]
      exact hsame.limits ▸ vacant.opening
    · rw [hlogged.disk, hhere]
      exact content?_of_opens vacant hopens (by decide) hsettled.checkpoint
  · rw [hlogged.disk, hhere]
    exact status_of_opens vacant hopens (by decide) hsettled.no_journal
  · rw [hlogged.disk]
    exact hsettled.outside key hkey

/-- **If the offsets cannot be printed**, nothing follows the journal. -/
theorem runSeeing_closing_of_not_printable (looks : Looks) (hsame : host.Same between)
    (vacant : Vacant recorder.config host made base) {gathered : Gathered} (hnone : gathered.events = .empty)
    (hnot : ¬ Printable gathered.offsets) :
    ∃ after, (recorder.closing .empty [] gathered).runSeeing looks between =
        (.error (.crashed brokenText), after) ∧
      recorder.Abandoned gathered.offsets after ∧
      ∀ key, (∀ name, key ≠ base ++ [name]) → after.disk.find? key = made.find? key := by
  obtain ⟨disk, hhalted, hopens, hcommit⟩ := runSeeing_commit_of_not_printable looks hsame vacant hnot
  refine ⟨{ between with disk, drawn := between.drawn + 1 }, ?_, ⟨?_, ?_⟩, hhalted.outside⟩
  · rw [closing, hnone]
    change ((recorder.commit { checkpoint := gathered.offsets } >>= _).runSeeing looks between) = _
    rw [runSeeing_bind, hcommit]
  · change disk.content? between.here _ = _
    rw [hsame.here]
    exact content?_of_opens vacant hopens (by decide) hhalted.journal
  · change disk.status between.here _ = _
    rw [hsame.here]
    refine status_of_opens vacant hopens (by decide) ?_
    rw [hhalted.checkpoint]
    exact vacant.free _ (by decide)

/-! ### The cycle -/

variable {log : Path}

lemma Spoiled.shows (spoiled : recorder.Spoiled looks host) (hopening : host.limits.opening = true)
    (hread : problem? looks host log = none) : looks log = none ∧ ∃ content, host.ShowsFile log content := by
  have hlooks : looks log = none := by
    by_contra hlooks
    exact spoiled.fails log hlooks hread
  exact ⟨hlooks, exists_content_of_unchanged hopening hlooks hread⟩

lemma Spoiled.passes (spoiled : recorder.Spoiled looks host) (hopening : host.limits.opening = true)
    (hunfinished : ∀ content, host.ShowsFile log content → Unfinished content) : Passes looks host log := by
  by_cases hproblem : problem? looks host log = none
  · obtain ⟨hlooks, content, hshows⟩ := spoiled.shows hopening hproblem
    obtain ⟨batch, hbatch, hlines, -⟩ := reading_of_unfinished hlooks hshows (hunfinished content hshows)
    exact Or.inr ⟨batch, hbatch, hlines⟩
  · refine Or.inl ?_
    unfold problem? at hproblem
    split at hproblem
    · next problem hreading => exact ⟨problem, hreading⟩
    · exact absurd rfl hproblem

lemma content?_of_shows {content : Bytes} (h : host.ShowsFile log content) :
    host.disk.content? host.here log = some content := by
  obtain ⟨key, hkey⟩ := h.holds
  simp [Disk.content?, Disk.read, hkey]

lemma Spoiled.place?_eq (spoiled : recorder.Spoiled looks host) (hopening : host.limits.opening = true)
    (hunfinished : ∀ content, host.ShowsFile log content → Unfinished content)
    (hread : problem? looks host log = none) :
    ∃ content place, host.disk.content? host.here log = some content ∧ BehindLastBreak content place ∧
      place? looks host log = some place := by
  obtain ⟨hlooks, content, hshows⟩ := spoiled.shows hopening hread
  obtain ⟨batch, hbatch, -, hbehind⟩ := reading_of_unfinished hlooks hshows (hunfinished content hshows)
  exact ⟨content, batch.newOffset, content?_of_shows hshows, hbehind, by rw [place?, hbatch]⟩

lemma place?_of_problem (h : problem? looks host log ≠ none) : place? looks host log = none := by
  unfold problem? at h
  unfold place?
  split at h
  · next problem hreading => rw [hreading]
  · exact absurd rfl h

/-- The logs that a cycle finds are those below its session directories, each of them once. -/
def FoundOnce (recorder : Recorder) (host : Host) : Prop :=
  ∃ logs : List Sighting, logs.Perm (recorder.logs host) ∧ (places logs).Nodup ∧
    recorder.discovered host = logs.map (·.path)

lemma foundOnce_of_separate (tree : host.disk.WellFormed) (h : recorder.Separate host) :
    recorder.FoundOnce host := by
  have hfound : ∀ directory, ∃ logs : List Sighting, logs.Perm (host.logsBelow directory) ∧
      host.found directory = logs.map (·.path) := by
    intro directory
    obtain ⟨logs, hperm, hrun⟩ := runOn_findLogs tree directory
    rw [Host.runOn_findLogs, Except.ok.injEq] at hrun
    exact ⟨logs, hperm, hrun⟩
  choose logs hperm hpaths using hfound
  have hlogs : (recorder.config.sessionDirs.flatMap fun dir => logs (recorder.config.root.join dir)).Perm
      (recorder.logs host) := List.Perm.flatMap_left _ fun dir _ => hperm _
  refine ⟨_, hlogs, ?_, ?_⟩
  · have hplaces : (places (recorder.config.sessionDirs.flatMap fun dir =>
        logs (recorder.config.root.join dir))).Perm (places (recorder.logs host)) := hlogs.map _
    exact hplaces.nodup_iff.mpr ((nodup_places_iff tree).mpr h)
  · simp only [discovered, hpaths, List.map_flatMap]

lemma idle_of_sifted {cycleId : Bytes} {gathered : Gathered}
    (h : Sifted looks host (recorder.discovered host) (.start cycleId .empty) gathered) :
    recorder.Idle looks host gathered.report := by
  rw [h.report_eq]
  exact
    { scanned := Nat.zero_add _
      failures := List.nil_append _
      no_lines := ⟨rfl, rfl⟩
      no_events := rfl
      no_bundles := ⟨rfl, rfl⟩ }

lemma advanced_of_sifted {cycleId : Bytes} {gathered : Gathered}
    (h : Sifted looks host (recorder.discovered host) (.start cycleId .empty) gathered)
    (spoiled : recorder.Spoiled looks host) (hopening : host.limits.opening = true)
    (hunfinished : ∀ log ∈ recorder.discovered host, ∀ content, host.ShowsFile log content →
      Unfinished content) : recorder.Advanced looks host gathered.offsets := by
  have hfind : ∀ log : Path, gathered.offsets.find? log.text =
      if log ∈ recorder.discovered host then place? looks host log else none := by
    intro log
    rw [h.offsets_eq]
    exact Option.or_none
  refine ⟨fun log hlog hread => ?_, fun log hlog hfailed => ?_, fun log hlog => ?_⟩
  · obtain ⟨content, place, hcontent, hbehind, hplace⟩ :=
      spoiled.place?_eq hopening (hunfinished log hlog) hread
    exact ⟨content, place, hcontent, hbehind, by rw [hfind, if_pos hlog, hplace]⟩
  · rw [hfind, if_pos hlog, place?_of_problem hfailed]
  · rw [hfind, if_neg hlog]

/-- The offsets that are known are those of logs that could be read. -/
lemma Advanced.entry {offsets : Offsets} (h : recorder.Advanced looks host offsets)
    (ascending : offsets.Ascending) {entry : Bytes × Nat} (hentry : entry ∈ offsets.entries) :
    ∃ log ∈ recorder.discovered host, log.text = entry.1 ∧ problem? looks host log = none ∧
      ∃ content, host.disk.content? host.here log = some content ∧ BehindLastBreak content entry.2 := by
  obtain ⟨text, offset⟩ := entry
  have hfind : offsets.find? text = some offset := ascending.findEntry_eq hentry
  have hfound : (⟨text⟩ : Path) ∈ recorder.discovered host := by
    by_contra hnot
    have hnone := h.unknown ⟨text⟩ hnot
    rw [hfind] at hnone
    cases hnone
  have hread : problem? looks host ⟨text⟩ = none := by
    by_contra hfailed
    have hnone := h.failed ⟨text⟩ hfound hfailed
    rw [hfind] at hnone
    cases hnone
  obtain ⟨content, place, hcontent, hbehind, hplace⟩ := h.read ⟨text⟩ hfound hread
  obtain rfl : offset = place := Option.some.inj (hfind.symm.trans hplace)
  exact ⟨⟨text⟩, hfound, rfl, hread, content, hcontent, hbehind⟩

lemma Advanced.printable_iff {offsets : Offsets} (h : recorder.Advanced looks host offsets)
    (ascending : offsets.Ascending) : Printable offsets ↔ recorder.Legible looks host := by
  constructor
  · intro printable log hlog hread
    obtain ⟨-, place, -, -, hplace⟩ := h.read log hlog hread
    exact printable _ (Table.mem_of_findEntry hplace)
  · intro legible entry hentry
    obtain ⟨log, hlog, htext, hread, -⟩ := h.entry ascending hentry
    rw [← htext]
    exact legible log hlog hread

lemma Advanced.measured {offsets : Offsets} (h : recorder.Advanced looks host offsets)
    (ascending : offsets.Ascending) (spoiled : recorder.Spoiled looks host)
    (hopening : host.limits.opening = true)
    (hsmall : ∀ log ∈ recorder.discovered host, ∀ content, host.ShowsFile log content →
      content.length < UInt64.size) : Measured offsets := by
  intro entry hentry
  obtain ⟨log, hlog, -, hread, content, hcontent, hbehind⟩ := h.entry ascending hentry
  obtain ⟨-, shown, hshows⟩ := spoiled.shows hopening hread
  obtain rfl : shown = content := Option.some.inj ((content?_of_shows hshows).symm.trans hcontent)
  exact Nat.lt_of_le_of_lt hbehind.le_length (hsmall log hlog shown hshows)

/-- **Logs that fail are kept apart.** Take a first cycle over logs whose finished lines are all empty, with
session directories that are apart and an output directory that can be written to. Some of the logs vanish
after they were found, or become unreadable. If the paths of the others consist of whole characters, the
cycle still succeeds: it reports each log that could not be read, in the order in which they were found, with
the offset from which it was to be read, and nothing else. From the checkpoint that is committed each of the
other logs is loaded with the place behind its last line break, and none of those that failed; no journal is
left. If one of these paths does not, the cycle crashes in its commit, with its journal and without a
checkpoint. Besides the files of the state nothing on the disk has changed but for new directories. -/
theorem failing_logs_are_isolated (tree : host.disk.WellFormed) (alone : host.watches = [])
    (vacant : Vacant recorder.config host made base) (spoiled : recorder.Spoiled looks host)
    (apart : recorder.config.sessionDirs.Pairwise fun dir other =>
      host.Apart (recorder.config.root.join dir) (recorder.config.root.join other))
    (unfinished : ∀ log ∈ recorder.discovered host, ∀ content, host.ShowsFile log content →
      Unfinished content ∧ content.length < UInt64.size) :
    ∃ result after offsets, recorder.runCycle.runSeeing looks host = (result, after) ∧
      recorder.FoundOnce host ∧ recorder.Advanced looks host offsets ∧
      (recorder.Legible looks host → recorder.Committed offsets after ∧
        ∃ report, result = .ok report ∧ recorder.Idle looks host report) ∧
      (¬ recorder.Legible looks host → recorder.Abandoned offsets after ∧
        result = .error (.crashed brokenText)) ∧
      ∀ key, (∀ name, key ≠ base ++ [name]) → Spared host.disk after.disk key := by
  have hunfinished : ∀ log ∈ recorder.discovered host, ∀ content, host.ShowsFile log content →
      Unfinished content := fun log hlog content hshows => (unfinished log hlog content hshows).1
  obtain ⟨cycleId, between, hopening, hbetween⟩ := runSeeing_opening alone vacant spoiled
  obtain ⟨gathered, stopped, hgather, hstopped, hsifted⟩ :=
    runSeeing_gather recorder alone hbetween spoiled.apart
      (fun dir hdir log hlog =>
        spoiled.passes vacant.opening (hunfinished log (List.mem_flatMap.mpr ⟨dir, hdir, hlog⟩)))
      (.start cycleId .empty)
  have hrun : recorder.runCycle.runSeeing looks host =
      (recorder.closing .empty [] gathered).runSeeing looks stopped := by
    rw [runCycle_eq, runSeeing_bind, hopening]
    dsimp only
    rw [runSeeing_bind, hgather]
  have ascending : gathered.offsets.Ascending := hsifted.ascending Table.ascending_empty
  have advanced := advanced_of_sifted hsifted spoiled vacant.opening hunfinished
  have once : recorder.FoundOnce host := foundOnce_of_separate tree (apart.imp fun h => h.disjoint)
  have hspared : ∀ {after : Host}, (∀ key, (∀ name, key ≠ base ++ [name]) →
      after.disk.find? key = made.find? key) →
      ∀ key, (∀ name, key ≠ base ++ [name]) → Spared host.disk after.disk key := by
    intro after houtside key hkey
    rw [Spared, houtside key hkey]
    exact vacant.furnished key
  rw [hrun]
  -- The logs decide what is committed, their names whether it can be.
  by_cases legible : recorder.Legible looks host
  · have measured : Measured gathered.offsets := advanced.measured ascending spoiled vacant.opening
      fun log hlog content hshows => (unfinished log hlog content hshows).2
    obtain ⟨after, hclosing, hcommitted, houtside⟩ :=
      runSeeing_closing looks hstopped vacant hsifted.events_eq ascending measured
        ((advanced.printable_iff ascending).mpr legible)
    exact ⟨_, after, gathered.offsets, hclosing, once, advanced,
      fun _ => ⟨hcommitted, _, rfl, idle_of_sifted hsifted⟩, fun hnot => absurd legible hnot,
      hspared houtside⟩
  · obtain ⟨after, hclosing, habandoned, houtside⟩ :=
      runSeeing_closing_of_not_printable looks hstopped vacant hsifted.events_eq
        (mt (advanced.printable_iff ascending).mp legible)
    exact ⟨_, after, gathered.offsets, hclosing, once, advanced, fun h => absurd h legible,
      fun _ => ⟨habandoned, rfl⟩, hspared houtside⟩

/-! ### Two directories whose logs have no line -/

/-- The directories `/r/s` and `/r/t` with three logs without a finished line. -/
def unfinishedLogs : Host where
  disk :=
    ⟨[([utf8 "r"], .directory), ([utf8 "r", utf8 "s"], .directory), ([utf8 "r", utf8 "t"], .directory),
      ([utf8 "r", utf8 "s", utf8 "a.jsonl"], .file (utf8 "\n\nab")),
      ([utf8 "r", utf8 "s", utf8 "b.jsonl"], .file (utf8 "cd")),
      ([utf8 "r", utf8 "t", utf8 "c.jsonl"], .file [])]⟩

/-- The second of them has vanished. -/
def vanished : Looks := fun log =>
  if log = ⟨utf8 "/r/s/b.jsonl"⟩ then some ⟨.error .noEntry, .unopened⟩ else none

/-- The disk with a directory for the state. -/
def unfinishedLogsWithState : Disk :=
  ⟨unfinishedLogs.disk.entries ++ [([utf8 "o"], .directory), ([utf8 "o", utf8 "state"], .directory)]⟩

lemma unfinishedLogs_wellFormed : unfinishedLogs.disk.WellFormed where
  keys_nodup := by decide +kernel
  key_ne_nil := by decide +kernel
  parent_directory := by decide +kernel

lemma unfinishedLogs_vacant :
    Vacant (ofDirectories [utf8 "s", utf8 "t"]).config unfinishedLogs unfinishedLogsWithState
      [utf8 "o", utf8 "state"] where
  is_open := ⟨⟨by decide, by decide⟩, by decide⟩
  opening := rfl
  unlimited := rfl
  granted := by decide +kernel
  opens := rfl
  short := by decide
  free := by decide +kernel
  spare name hname digits := Or.inl (by
    have hne : utf8 "r" ≠ utf8 "o" := by decide
    simp [find?, findEntry, unfinishedLogsWithState, unfinishedLogs, hne])

lemma unfinishedLogs_discovered :
    (ofDirectories [utf8 "s", utf8 "t"]).discovered unfinishedLogs =
      [⟨utf8 "/r/s/a.jsonl"⟩, ⟨utf8 "/r/s/b.jsonl"⟩, ⟨utf8 "/r/t/c.jsonl"⟩] := by
  decide +kernel

lemma unfinishedLogs_spoiled : (ofDirectories [utf8 "s", utf8 "t"]).Spoiled vanished unfinishedLogs where
  found log hlooks := by
    rw [unfinishedLogs_discovered]
    unfold vanished at hlooks
    split at hlooks
    · next heq => simp [heq]
    · exact absurd rfl hlooks
  apart := by decide +kernel
  fails log hlooks := by
    unfold vanished at hlooks
    split at hlooks
    · next heq =>
      subst heq
      decide +kernel
    · exact absurd rfl hlooks

lemma unfinishedLogs_unfinished :
    ∀ log ∈ (ofDirectories [utf8 "s", utf8 "t"]).discovered unfinishedLogs,
      ∀ content, unfinishedLogs.ShowsFile log content → Unfinished content ∧ content.length < UInt64.size := by
  intro log hlog content hshows
  have hcontent := content?_of_shows hshows
  rw [unfinishedLogs_discovered] at hlog
  simp only [List.mem_cons, List.not_mem_nil, or_false] at hlog
  rcases hlog with rfl | rfl | rfl
  · have hfile : unfinishedLogs.disk.content? unfinishedLogs.here ⟨utf8 "/r/s/a.jsonl"⟩ =
        some (utf8 "\n\nab") := by decide +kernel
    obtain rfl : utf8 "\n\nab" = content := Option.some.inj (hfile.symm.trans hcontent)
    exact ⟨⟨[[], []], utf8 "ab", ⟨by decide, by decide, by decide⟩, by decide⟩, by decide⟩
  · have hfile : unfinishedLogs.disk.content? unfinishedLogs.here ⟨utf8 "/r/s/b.jsonl"⟩ =
        some (utf8 "cd") := by decide +kernel
    obtain rfl : utf8 "cd" = content := Option.some.inj (hfile.symm.trans hcontent)
    exact ⟨⟨[], utf8 "cd", ⟨by decide, by decide, by decide⟩, by decide⟩, by decide⟩
  · have hfile : unfinishedLogs.disk.content? unfinishedLogs.here ⟨utf8 "/r/t/c.jsonl"⟩ = some [] := by
      decide +kernel
    obtain rfl : [] = content := Option.some.inj (hfile.symm.trans hcontent)
    exact ⟨⟨[], [], ⟨by decide, by decide, by decide⟩, by decide⟩, by decide⟩

lemma unfinishedLogs_apart :
    [utf8 "s", utf8 "t"].Pairwise fun dir other =>
      unfinishedLogs.Apart ((ofDirectories [utf8 "s", utf8 "t"]).config.root.join dir)
        ((ofDirectories [utf8 "s", utf8 "t"]).config.root.join other) := by
  have hapart : unfinishedLogs.Apart ⟨utf8 "/r/s"⟩ ⟨utf8 "/r/t"⟩ := by
    intro key key' hfirst hsecond
    have hs : unfinishedLogs.disk.resolve unfinishedLogs.here true ⟨utf8 "/r/s"⟩ =
        .ok (.present (.inside [utf8 "r", utf8 "s"]) .directory) := by decide +kernel
    have ht : unfinishedLogs.disk.resolve unfinishedLogs.here true ⟨utf8 "/r/t"⟩ =
        .ok (.present (.inside [utf8 "r", utf8 "t"]) .directory) := by decide +kernel
    obtain rfl : key = [utf8 "r", utf8 "s"] := by simpa [hs, eq_comm] using hfirst
    obtain rfl : key' = [utf8 "r", utf8 "t"] := by simpa [ht, eq_comm] using hsecond
    exact ⟨by decide, by decide⟩
  exact List.pairwise_pair.mpr hapart

lemma unfinishedLogs_legible :
    (ofDirectories [utf8 "s", utf8 "t"]).Legible vanished unfinishedLogs := by
  have hvalid : ∀ log ∈ (ofDirectories [utf8 "s", utf8 "t"]).discovered unfinishedLogs,
      Utf8.isValid log.text = true := by
    rw [unfinishedLogs_discovered]
    decide
  exact fun log hlog _ => hvalid log hlog

/-- The first log is read, the second one has vanished, and the third one is empty. -/
theorem failing_logs_are_isolated_vanished :
    Vacant (ofDirectories [utf8 "s", utf8 "t"]).config unfinishedLogs unfinishedLogsWithState
        [utf8 "o", utf8 "state"] ∧
      (ofDirectories [utf8 "s", utf8 "t"]).Spoiled vanished unfinishedLogs ∧
      ∃ (report : Report) (after : Host) (offsets : Offsets),
        (ofDirectories [utf8 "s", utf8 "t"]).runCycle.runSeeing vanished unfinishedLogs =
          (.ok report, after) ∧
        report.filesScanned = 3 ∧
        report.readFailures =
          [utf8 "/r/s/b.jsonl @ 0: Unable to stat log file: /r/s/b.jsonl (No such file or directory)"] ∧
        offsets.find? (utf8 "/r/s/a.jsonl") = some 2 ∧ offsets.find? (utf8 "/r/s/b.jsonl") = none ∧
        (loadOffsets ⟨utf8 "/o/state/tail-state.json"⟩).runOn after = (.ok offsets, after) := by
  obtain ⟨result, after, offsets, hrun, -, hadvanced, hlegible, -, -⟩ :=
    failing_logs_are_isolated unfinishedLogs_wellFormed rfl unfinishedLogs_vacant unfinishedLogs_spoiled
      unfinishedLogs_apart unfinishedLogs_unfinished
  obtain ⟨hcommitted, report, rfl, hidle⟩ := hlegible unfinishedLogs_legible
  refine ⟨unfinishedLogs_vacant, unfinishedLogs_spoiled, report, after, offsets, hrun, ?_, ?_, ?_, ?_,
    hcommitted.reloaded⟩
  · rw [hidle.scanned, unfinishedLogs_discovered]
    rfl
  · rw [hidle.failures, unfinishedLogs_discovered]
    decide +kernel
  · obtain ⟨content, place, hcontent, hbehind, hplace⟩ :=
      hadvanced.read ⟨utf8 "/r/s/a.jsonl"⟩ (by rw [unfinishedLogs_discovered]; simp) (by decide +kernel)
    have hfile : unfinishedLogs.disk.content? unfinishedLogs.here ⟨utf8 "/r/s/a.jsonl"⟩ =
        some (utf8 "\n\nab") := by decide +kernel
    obtain rfl : utf8 "\n\nab" = content := Option.some.inj (hfile.symm.trans hcontent)
    have htwo : BehindLastBreak (utf8 "\n\nab") 2 := ⟨by decide, by decide, by decide⟩
    obtain rfl : place = 2 := Nat.le_antisymm (hbehind.le htwo) (htwo.le hbehind)
    exact hplace
  · exact hadvanced.failed ⟨utf8 "/r/s/b.jsonl"⟩ (by rw [unfinishedLogs_discovered]; simp) (by decide +kernel)

/-- The directory `/r/s` with an empty log, in whose name there is a byte that begins no character. -/
def illegibleLog : Host where
  disk :=
    ⟨[([utf8 "r"], .directory), ([utf8 "r", utf8 "s"], .directory),
      ([utf8 "r", utf8 "s", 0xff :: utf8 ".jsonl"], .file [])]⟩

/-- A log whose name is not printed stops the cycle in its commit: it crashes, without a checkpoint. -/
theorem illegible_log_stops_cycle :
    ((create (ofDirectories [utf8 "s"]).config).runOn illegibleLog).1 = .ok (ofDirectories [utf8 "s"]) ∧
      ((ofDirectories [utf8 "s"]).runCycle.runOn illegibleLog).1 = .error (.crashed brokenText) ∧
      ((ofDirectories [utf8 "s"]).runCycle.runOn illegibleLog).2.disk.find?
        [utf8 "o", utf8 "state", utf8 "tail-state.json"] = none := by
  refine ⟨?_, ?_, ?_⟩
  all_goals decide +kernel

end Recorder

end Chronicle
