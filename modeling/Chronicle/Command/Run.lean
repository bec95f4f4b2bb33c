import Chronicle.Command.Arguments
import Chronicle.Config.Document
import Chronicle.Manifest.Reassemble
import Chronicle.Recorder.Polling

/-!
Carrying out a command line, down to the exit code.
-/

namespace Chronicle.Command

/-- Logs a problem, and its hint if it has one. -/
def logProblem (what : Bytes) (problem : Problem) : Program Unit := do
  Program.logError
    (what ++ utf8 " [" ++ problem.category.name ++ utf8 "/" ++ problem.code ++ utf8 "]: "
      ++ problem.message)
  if !problem.hint.isEmpty then Program.logInfo (utf8 "Hint: " ++ problem.hint)

/-- Goes on with a value; a problem is logged and gives an exit code. -/
def orExit {α : Type} (what : String) (exitCode : Nat) (program : Program α)
    (next : α → Program Nat) : Program Nat := do
  match ← program.attempt with
  | .ok value => next value
  | .error problem =>
    logProblem (utf8 what) problem
    return exitCode

/-- Puts what the command line says over a configuration; the output directory moves with the root. -/
def override (request : Invocation) (config : Config) : Config :=
  let config := match request.root with
    | none => config
    | some root =>
      let config := { config with root := root }
      if request.outDir.isNone then { config with outDir := Config.defaultOutDir root } else config
  match request.outDir with
  | none => config
  | some outDir => { config with outDir := outDir }

/-- The configuration of a request: the file, then the command line. -/
def resolveConfig (request : Invocation) : Program Config := do
  let config ← match request.configFile with
    | none => pure {}
    | some path => Config.load path
  (override request config).validated

/-! ### Verifying -/

def logAll (level : Log.Level) (bundleId : Bytes) : List Bytes → Program Unit
  | [] => return ()
  | message :: rest => do
    Program.log level (bundleId ++ utf8 ": " ++ message)
    logAll level bundleId rest

/-- Checks a manifest with its chunks, and says whether all agree. -/
def verifyLoaded (bundleId : Bytes) (loaded : Artifact.Store.Loaded) : Program Bool := do
  let verification := Manifest.verify loaded.manifest loaded.chunks
  logAll .warning bundleId (verification.oddities.map Manifest.Oddity.message)
  logAll .error bundleId (verification.defects.map Manifest.Defect.message)
  if !verification.valid then return false
  match Manifest.reassemble loaded.manifest loaded.chunks with
  | .error fault =>
    logProblem (utf8 "Reassembly failed for " ++ bundleId) fault.problem
    return false
  | .ok _ =>
    Program.logInfo
      (bundleId ++ utf8 ": ok (" ++ Bytes.decimal loaded.manifest.chunks.length
        ++ utf8 " chunks, " ++ Bytes.decimal loaded.manifest.totalEvents.toNat ++ utf8 " events)")
    return true

def verifyBundle (artifacts : Artifact.Store) (bundleId : Bytes) : Program Bool := do
  match ← (artifacts.load bundleId).attempt with
  | .error problem =>
    logProblem (utf8 "Cannot load manifest for " ++ bundleId) problem
    return false
  | .ok loaded => verifyLoaded bundleId loaded

/-- Verifies bundles in turn and counts those that fail. -/
def verifyAll (artifacts : Artifact.Store) : List Bytes → Program Nat
  | [] => return 0
  | bundleId :: rest => do
    let valid ← verifyBundle artifacts bundleId
    let failed ← verifyAll artifacts rest
    return if valid then failed else failed + 1

/-- Verifies the bundle of one manifest file, its chunks beside the directory of the file. -/
def verifyFile (path : Path) : Program Nat := do
  match Artifact.bundleIdOf path with
  | .error fault =>
    logProblem (utf8 "Invalid manifest") fault.problem
    return 2
  | .ok bundleId =>
    let valid ← verifyBundle (.below path.parent.parent) bundleId
    return if valid then 0 else 1

def verifyPublished (config : Config) : Program Nat := do
  let bundleIds ← config.artifacts.listBundleIds
  if bundleIds.isEmpty then
    Program.logWarning (utf8 "No manifests under " ++ config.artifacts.manifests.text)
    return 0
  else
    let failed ← verifyAll config.artifacts bundleIds
    Program.logInfo
      (utf8 "Verified " ++ Bytes.decimal bundleIds.length ++ utf8 " bundles, "
        ++ Bytes.decimal failed ++ utf8 " failed")
    return if failed = 0 then 0 else 1

def verify (config : Config) (request : Invocation) : Program Nat :=
  match request.manifestFile with
  | some path => verifyFile path
  | none => verifyPublished config

/-! ### Recording -/

def warnAll (what : String) : List Bytes → Program Unit
  | [] => return ()
  | failure :: rest => do
    Program.logWarning (utf8 what ++ failure)
    warnAll what rest

/-- One cycle; what it had to put off shows in the exit code. -/
def scan (recorder : Recorder) : Program Nat :=
  orExit "Scan failed" 1 recorder.runCycle fun report => do
    warnAll "Deferred: " report.readFailures
    warnAll "Unpublished: " report.publishFailures
    return if report.readFailures.isEmpty && report.publishFailures.isEmpty then 0 else 3

/-- Cycles until a stop is requested, at most as many as given. -/
def poll (recorder : Recorder) (cycles : Nat) : Program Nat := do
  Program.logInfo
    (utf8 "Recorder: polling every " ++ Bytes.decimal recorder.config.scanEverySeconds.toNat
      ++ utf8 "s (+ up to " ++ Bytes.decimal recorder.config.jitterSeconds.toNat ++ utf8 "s jitter)")
  let completed ← recorder.runUntilStopped cycles 0
  Program.logInfo
    (utf8 "Recorder: stopped after " ++ Bytes.decimal completed ++ utf8 " completed cycles")
  return 0

/-- Carries out a request with a configuration. -/
def perform (cycles : Nat) (request : Invocation) (config : Config) : Program Nat := do
  Program.logInfo
    (utf8 "Recorder: root " ++ config.root.text ++ utf8 ", output " ++ config.outDir.text)
  match request.action with
  | .verify => verify config request
  | .scan => orExit "Failed to start recorder" 2 (Recorder.create config) scan
  | .run => orExit "Failed to start recorder" 2 (Recorder.create config) (poll · cycles)

/-- The whole program: a command line, the program's name left out, to an exit code. -/
def execute (cycles : Nat) (words : List Bytes) : Program Nat := do
  Program.request (.setContext (utf8 "bootstrap"))
  orExit "Input error" 2 (parse words) fun request => do
    if request.verbose then Program.request (.setLeast .debug)
    orExit "Configuration error" 2 (resolveConfig request) (perform cycles request)

end Chronicle.Command
