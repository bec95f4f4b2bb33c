import Chronicle.Config.Settings
import Chronicle.Ingest
import Chronicle.Tail.Discovery
import Chronicle.Tail.NewLines
import Chronicle.Trace.Local

/-!
One cycle of a recorder.

New lines of all logs are gathered first. Then every bundle they touch is built, together with the bundles
that an earlier cycle could not publish; nothing is written while that can fail. Spool lines and the
checkpoint are then committed together, and only after that the bundles are published. What cannot be
published is kept on a list for the next cycle.
-/

namespace Chronicle

structure Recorder where
  config : Config
  redaction : Redaction
  deriving DecidableEq, Repr

namespace Recorder

/-- What a cycle did. -/
structure Report where
  cycleId : Bytes
  filesScanned : Nat := 0
  linesRead : Nat := 0
  eventsParsed : Nat := 0
  /-- lines that are no events -/
  linesSkipped : Nat := 0
  bundlesBuilt : Nat := 0
  /-- logs to be read again in the next cycle -/
  readFailures : List Bytes := []
  /-- bundles to be published in the next cycle -/
  publishFailures : List Bytes := []
  deriving DecidableEq, Repr

/-- A recorder for a configuration that keeps the rules. -/
def create (config : Config) : Program Recorder := do
  let config ← config.validated
  let redaction ← .ofResult Redaction.BadPattern.problem (Redaction.ofSettings config.redaction)
  return ⟨config, redaction⟩

/-- The text of a problem behind its code. -/
def describe (problem : Problem) : Bytes :=
  utf8 "[" ++ problem.code ++ utf8 "]: " ++ problem.message

/-- A range of a log that is half open. -/
def rangeText (start stop : Nat) : Bytes :=
  utf8 "[" ++ Bytes.decimal start ++ utf8 ", " ++ Bytes.decimal stop ++ utf8 ")"

/-! ### Gathering -/

/-- What has been gathered from the logs so far. -/
structure Gathered where
  report : Report
  offsets : Tail.Offsets
  /-- new events by bundle, in log order -/
  events : Table (List Spool.Event) := .empty

/-- Takes over the lines of a batch. -/
def takeLines (redaction : Redaction) : List Bytes → Gathered → Program Gathered
  | [], gathered => return gathered
  | line :: rest, gathered => do
    let now ← Trace.readClock
    match Ingest.event? redaction now line with
    | none =>
      let report := { gathered.report with linesSkipped := gathered.report.linesSkipped + 1 }
      takeLines redaction rest { gathered with report := report }
    | some event =>
      let bundleId := Spool.bundleId (Spool.todayAt now) event
      let known := (gathered.events.find? bundleId).getD []
      let report := { gathered.report with eventsParsed := gathered.report.eventsParsed + 1 }
      takeLines redaction rest
        { gathered with report := report, events := gathered.events.insert bundleId (known ++ [event]) }

/-- Reads a log from its saved offset on; a log that cannot be read is left for the next cycle. -/
def gatherLog (redaction : Redaction) (saved : Tail.Offsets) (log : Path) (gathered : Gathered) :
    Program Gathered := do
  let report := { gathered.report with filesScanned := gathered.report.filesScanned + 1 }
  let offset := (saved.find? log.text).getD 0
  match ← (Tail.readNewLines log offset).attempt with
  | .error problem =>
    let failure := log.text ++ utf8 " @ " ++ Bytes.decimal offset ++ utf8 ": " ++ problem.message
    Program.logWarning
      (utf8 "Recorder: read failed at offset " ++ Bytes.decimal offset ++ utf8 " "
        ++ describe problem)
    return { gathered with
      report := { report with readFailures := report.readFailures ++ [failure] } }
  | .ok batch =>
    let report := { report with linesRead := report.linesRead + batch.lines.length }
    let gathered ← takeLines redaction batch.lines
      { gathered with report := report, offsets := gathered.offsets.insert log.text batch.newOffset }
    if batch.newOffset ≠ offset then
      Program.logDebug
        (utf8 "Recorder: " ++ log.text ++ utf8 " " ++ rangeText offset batch.newOffset ++ utf8 " -> "
          ++ Bytes.decimal batch.lines.length ++ utf8 " lines")
    return gathered

def gatherLogs (redaction : Redaction) (saved : Tail.Offsets) :
    List Path → Gathered → Program Gathered
  | [], gathered => return gathered
  | log :: rest, gathered => do gatherLogs redaction saved rest (← gatherLog redaction saved log gathered)

/-- Goes through the session directories in the order in which they are configured. -/
def gather (recorder : Recorder) (saved : Tail.Offsets) :
    List Bytes → Gathered → Program Gathered
  | [], gathered => return gathered
  | dir :: rest, gathered => do
    let logs ← Tail.findLogs (recorder.config.root.join dir)
    recorder.gather saved rest (← gatherLogs recorder.redaction saved logs gathered)

/-! ### Building -/

/-- What has been built and is to be committed. -/
structure Prepared where
  builds : List (Bytes × Trace.Built) := []
  appends : List Commit.Append := []
  unpublished : Names

/-- The ranges by which offsets have moved, in path order. -/
def movedRanges (before : Tail.Offsets) (after : Tail.Offsets) : Bytes :=
  let moved := after.entries.filterMap fun (path, offset) =>
    let start := (before.find? path).getD 0
    if start = offset then none else some (path ++ utf8 " " ++ rangeText start offset)
  if moved.isEmpty then utf8 "none" else Bytes.joinedBy (utf8 ", ") moved

/-- Builds one bundle from its spool and its new events. -/
def buildBundle (recorder : Recorder) (ranges : Bytes) (bundleId : Bytes)
    (events : List Spool.Event) (prepared : Prepared) : Program Prepared := do
  let baseSize ← recorder.config.spool.size bundleId
  let spooled ← recorder.config.spool.read bundleId
  let all := spooled ++ events
  if all.isEmpty then
    Program.logWarning
      (utf8 "Recorder: nothing spooled for unpublished bundle " ++ bundleId ++ utf8 ", dropping it")
    return { prepared with unpublished := prepared.unpublished.erase bundleId }
  let batch : Trace.Batch := ⟨Spool.agentOf bundleId, all, some recorder.config.chunkSize⟩
  match ← (Trace.assemble Trace.localPrimitives recorder.config.assembly batch).attempt with
  | .error problem =>
    Program.logError
      (utf8 "Recorder: build failed for " ++ bundleId ++ utf8 " " ++ describe problem)
    .report { problem with
      hint := utf8 "Checkpoint not advanced; unconsumed ranges: " ++ ranges }
  | .ok built =>
    Program.logDebug
      (utf8 "TraceAssembler: run " ++ built.bundle.privateRun.id ++ utf8 " built with "
        ++ Bytes.decimal all.length ++ utf8 " events in " ++ Bytes.decimal built.chunks.length
        ++ utf8 " chunks")
    let append := if events.isEmpty then [] else [⟨bundleId, baseSize, events⟩]
    return { builds := prepared.builds ++ [(bundleId, built)]
             appends := prepared.appends ++ append
             unpublished := prepared.unpublished.insert bundleId }

def buildBundles (recorder : Recorder) (ranges : Bytes) :
    List (Bytes × List Spool.Event) → Prepared → Program Prepared
  | [], prepared => return prepared
  | (bundleId, events) :: rest, prepared => do
    recorder.buildBundles ranges rest (← recorder.buildBundle ranges bundleId events prepared)

/-! ### Publishing -/

/-- Publishes what was built; gives the report and the bundles that are left. -/
def publishBuilds (recorder : Recorder) :
    List (Bytes × Trace.Built) → Report → Names → Program (Report × Names)
  | [], report, unpublished => return (report, unpublished)
  | (bundleId, built) :: rest, report, unpublished => do
    match ← (recorder.config.artifacts.publish bundleId built).attempt with
    | .error problem =>
      let failure := bundleId ++ utf8 ": " ++ problem.message
      Program.logWarning
        (utf8 "Recorder: publish failed for " ++ bundleId ++ utf8 " " ++ describe problem
          ++ utf8 "; retried next cycle")
      recorder.publishBuilds rest
        { report with publishFailures := report.publishFailures ++ [failure] } unpublished
    | .ok _ =>
      Program.logInfo
        (utf8 "Recorder: bundle " ++ bundleId ++ utf8 " -> manifest " ++ built.manifest.manifestHash
          ++ utf8 " (" ++ Bytes.decimal built.bundle.privateRun.events.length ++ utf8 " events, "
          ++ Bytes.decimal built.chunks.length ++ utf8 " chunks)")
      recorder.publishBuilds rest { report with bundlesBuilt := report.bundlesBuilt + 1 }
        (unpublished.erase bundleId)

/-- Saves the list of unpublished bundles if it has changed; a stale list only causes more work. -/
def saveUnpublished (recorder : Recorder) (committed unpublished : Names) : Program Unit := do
  if unpublished ≠ committed then
    match ← (recorder.config.journal.saveUnpublished unpublished).attempt with
    | .error problem => Program.logWarning (utf8 "Recorder: " ++ problem.message)
    | .ok _ => return ()

/-! ### The cycle -/

/-- Carries out a commit that an earlier cycle has left. -/
def replay (recorder : Recorder) : Program Unit := do
  match ← (recorder.config.journal.recover recorder.config.spool).attempt with
  | .error problem =>
    Program.logError (utf8 "Recorder: commit journal replay failed " ++ describe problem)
    .report problem
  | .ok _ => return ()

/-- Commits what a cycle has gathered. -/
def commit (recorder : Recorder) (pending : Commit.Pending) : Program Unit := do
  match ← (recorder.config.journal.commit recorder.config.spool pending).attempt with
  | .error problem =>
    Program.logError (utf8 "Recorder: commit failed " ++ describe problem)
    .report { problem with
      hint := utf8 "Journal at " ++ recorder.config.journalPath.text ++
        utf8 " is replayed on the next cycle if it was written" }
  | .ok _ => return ()

def summary (report : Report) : Bytes :=
  utf8 "Recorder: cycle done, " ++ Bytes.decimal report.filesScanned ++ utf8 " files, "
    ++ Bytes.decimal report.eventsParsed ++ utf8 " new events, "
    ++ Bytes.decimal report.bundlesBuilt ++ utf8 " bundles, "
    ++ Bytes.decimal report.publishFailures.length ++ utf8 " unpublished"

/-- One full cycle. -/
def runCycle (recorder : Recorder) : Program Report := do
  let cycleId := Ident.short (utf8 "cycle") (← Program.request (.draws 8))
  Program.request (.setContext cycleId)
  recorder.replay
  let saved ← Tail.loadOffsets recorder.config.checkpointPath
  let unpublished ← recorder.config.journal.loadUnpublished
  let gathered ← recorder.gather saved recorder.config.sessionDirs
    { report := { cycleId := cycleId }, offsets := saved }
  let pending := unpublished.foldl (fun table bundleId => table.insertIfNew bundleId []) gathered.events
  let prepared ← recorder.buildBundles (movedRanges saved gathered.offsets) pending.entries
    { unpublished := unpublished }
  recorder.commit
    { appends := prepared.appends
      checkpoint := gathered.offsets
      unpublished := prepared.unpublished }
  let (report, left) ← recorder.publishBuilds prepared.builds gathered.report prepared.unpublished
  recorder.saveUnpublished prepared.unpublished left
  Program.logInfo (summary report)
  return report

end Recorder

end Chronicle
