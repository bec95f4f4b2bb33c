import Chronicle.Artifact.Store
import Chronicle.Commit.Journal
import Chronicle.Redaction

/-!
The configuration of a recorder: where logs are, where output goes, and how bundles are made.

Paths that are not set get defaults, and both are made absolute and brought into normal form. Everything
else is left as it is and only checked.
-/

namespace Chronicle

structure Config where
  /-- the directory that holds session logs -/
  root : Path := ⟨[]⟩
  sessionDirs : List Bytes := [utf8 "sessions", utf8 "history"]
  outDir : Path := ⟨[]⟩
  redaction : RedactionSettings := {}
  scanEverySeconds : UInt32 := 10
  jitterSeconds : UInt32 := 180
  chunkSize : UInt64 := defaultChunkSize
  assembly : Trace.AssemblySettings := {}
  deriving DecidableEq, Repr

namespace Config

/-! ### Places below the output directory -/

def stateFile (config : Config) (name : String) : Path :=
  (config.outDir.join (utf8 "state")).join (utf8 name)

def checkpointPath (config : Config) : Path := config.stateFile "tail-state.json"
def journalPath (config : Config) : Path := config.stateFile "commit-journal.json"
def unpublishedPath (config : Config) : Path := config.stateFile "unpublished.json"
def spoolDir (config : Config) : Path := config.outDir.join (utf8 "spool")

def spool (config : Config) : Spool.Store := ⟨config.spoolDir⟩

def journal (config : Config) : Commit.Journal :=
  ⟨config.journalPath, config.checkpointPath, config.unpublishedPath⟩

def artifacts (config : Config) : Artifact.Store := .below config.outDir

/-- The output directory below a root. -/
def defaultOutDir (root : Path) : Path := (root.join (utf8 "orynq")).join (utf8 "recorder")

/-! ### Paths -/

/-- What paths depend on outside of a configuration. -/
structure Environment where
  home : Option Bytes
  workingDirectory : Except Errno Path

namespace Environment

/-- The absolute form of a path in normal form; a path that has none stays. -/
def normalize (environment : Environment) (path : Path) : Path :=
  if path.isEmpty then path
  else if path.isAbsolute then path.normalized
  else match environment.workingDirectory with
    | .ok directory => (directory.join path.text).normalized
    | .error _ => path

/-- The home directory, or the working directory where none is named. -/
def homeDirectory (environment : Environment) : Path :=
  match environment.home with
  | some (b :: rest) => ⟨b :: rest⟩
  | _ => environment.workingDirectory.toOption.getD ⟨[]⟩

end Environment

/-- Fills in and normalises root and output directory. -/
def normalizePaths (environment : Environment) (config : Config) : Config :=
  let root := environment.normalize
    (if config.root.isEmpty then environment.homeDirectory.join (utf8 ".openclaw") else config.root)
  let outDir := environment.normalize
    (if config.outDir.isEmpty then defaultOutDir root else config.outDir)
  { config with root := root, outDir := outDir }

/-- The configuration where nothing is set. -/
def default (environment : Environment) : Config := normalizePaths environment {}

/-! ### Rules -/

/-- A rule that a configuration breaks. -/
inductive Violation
  | noSessionDirs
  | shortInterval
  | zeroChunkSize
  | emptyName
  deriving DecidableEq, Repr

namespace Violation

def problem : Violation → Problem
  | noSessionDirs =>
    { category := .input, message := utf8 "sessionDirs must be non-empty."
      code := utf8 "invalid_session_dirs" }
  | shortInterval =>
    { category := .input, message := utf8 "scanEverySeconds must be >= 2."
      code := utf8 "invalid_schedule", hint := utf8 "Use a scan interval of at least 2 seconds." }
  | zeroChunkSize =>
    { category := .input, message := utf8 "chunkSize must be positive."
      code := utf8 "invalid_chunk_size" }
  | emptyName =>
    { category := .input, message := utf8 "rootSpanName and eventType cannot be empty."
      code := utf8 "invalid_trace_config" }

end Violation

/-- The first rule that is broken. -/
def violation? (config : Config) : Option Violation :=
  if config.sessionDirs.isEmpty then some .noSessionDirs
  else if config.scanEverySeconds < 2 then some .shortInterval
  else if config.chunkSize = 0 then some .zeroChunkSize
  else if config.assembly.rootSpanName.isEmpty || config.assembly.eventType.isEmpty then
    some .emptyName
  else none

/-- Normalises the paths and checks the rules. -/
def validate (environment : Environment) (config : Config) : Except Violation Config :=
  match config.violation? with
  | some violation => .error violation
  | none => .ok (config.normalizePaths environment)

/-- What the system says about paths. -/
def environment : Program Environment := do
  return ⟨← Program.request .home, ← Program.request .workingDirectory⟩

def validated (config : Config) : Program Config := do
  .ofResult Violation.problem (config.validate (← environment))

end Config

end Chronicle
