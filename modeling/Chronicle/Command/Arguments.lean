import Chronicle.Storage.File

/-!
The command line: a command, and flags with values.

The words behind the command are read first, without a look at any path; of a flag that is given twice the
last value counts. Then the paths are checked in a fixed order.
-/

namespace Chronicle.Command

/-- What the program is asked to do. -/
inductive Action
  /-- one cycle -/
  | scan
  /-- cycles until a stop is requested -/
  | run
  /-- check published manifests against their chunks -/
  | verify
  deriving DecidableEq, Repr

namespace Action

def all : List Action := [scan, run, verify]

def name : Action → Bytes
  | scan => utf8 "scan"
  | run => utf8 "run"
  | verify => utf8 "verify"

def ofName? (text : Bytes) : Option Action := all.find? fun action => action.name == text

end Action

/-- The flags that take a value. -/
inductive Flag
  | config
  | root
  | outDir
  | manifest
  deriving DecidableEq, Repr

namespace Flag

def all : List Flag := [config, root, outDir, manifest]

def text : Flag → Bytes
  | config => utf8 "--config"
  | root => utf8 "--root"
  | outDir => utf8 "--out-dir"
  | manifest => utf8 "--manifest"

def ofText? (text : Bytes) : Option Flag := all.find? fun flag => flag.text == text

end Flag

def verboseFlag : Bytes := utf8 "--verbose"

/-- The words behind the command, sorted out. -/
structure Options where
  config : Option Bytes := none
  root : Option Bytes := none
  outDir : Option Bytes := none
  manifest : Option Bytes := none
  verbose : Bool := false
  deriving DecidableEq, Repr

def Options.set (options : Options) (value : Bytes) : Flag → Options
  | .config => { options with config := some value }
  | .root => { options with root := some value }
  | .outDir => { options with outDir := some value }
  | .manifest => { options with manifest := some value }

/-- What is asked for, all paths checked. -/
structure Invocation where
  action : Action
  configFile : Option Path := none
  root : Option Path := none
  outDir : Option Path := none
  manifestFile : Option Path := none
  verbose : Bool := false
  deriving DecidableEq, Repr

/-- Why a command line is refused. -/
inductive ArgumentFault
  | noCommand
  | unknownCommand (text : Bytes)
  | unknownArgument (text : Bytes)
  | missingValue (flag : Flag)
  | strayManifest
  | notFile (flag : Flag) (value : Bytes)
  | notDirectory (flag : Flag) (value : Bytes)
  | notCanonical (flag : Flag) (value : Bytes)
  | emptyOutDir
  | unresolvedOutDir (value : Bytes)
  deriving DecidableEq, Repr

def usage : Bytes :=
  utf8 "Usage: recorder_cli <scan|run|verify> [--config FILE] [--root DIR] " ++
    utf8 "[--out-dir DIR] [--manifest FILE] [--verbose]"

namespace ArgumentFault

def message : ArgumentFault → Bytes
  | noCommand => utf8 "No command provided."
  | unknownCommand text => utf8 "Unknown command: " ++ text
  | unknownArgument text => utf8 "Unknown argument: " ++ text
  | missingValue flag => utf8 "Missing value for " ++ flag.text
  | strayManifest => utf8 "--manifest is only valid with 'verify'"
  | notFile flag value => flag.text ++ utf8 " is not a file: " ++ value
  | notDirectory flag value => flag.text ++ utf8 " is not a directory: " ++ value
  | notCanonical flag value => utf8 "Failed to canonicalize " ++ flag.text ++ utf8 ": " ++ value
  | emptyOutDir => utf8 "--out-dir cannot be empty"
  | unresolvedOutDir value => utf8 "Failed to resolve --out-dir: " ++ value

def code : ArgumentFault → Bytes
  | noCommand => utf8 "missing_command"
  | unknownCommand _ => utf8 "unknown_command"
  | unknownArgument _ => utf8 "unknown_argument"
  | missingValue _ => utf8 "missing_value"
  | strayManifest => utf8 "conflicting_flags"
  | _ => utf8 "invalid_path"

def hint : ArgumentFault → Bytes
  | noCommand | unknownCommand _ | unknownArgument _ => usage
  | _ => []

def problem (fault : ArgumentFault) : Problem where
  category := .input
  message := fault.message
  code := fault.code
  hint := fault.hint

end ArgumentFault

/-! ### Words -/

/-- Sorts out the words behind the command. The word behind a flag is its value, whatever it looks like. -/
def readOptions : List Bytes → Options → Except ArgumentFault Options
  | [], options => .ok options
  | [word], options =>
    if word = verboseFlag then .ok { options with verbose := true }
    else match Flag.ofText? word with
      | some flag => .error (.missingValue flag)
      | none => .error (.unknownArgument word)
  | word :: value :: rest, options =>
    if word = verboseFlag then readOptions (value :: rest) { options with verbose := true }
    else match Flag.ofText? word with
      | some flag => readOptions rest (options.set value flag)
      | none => .error (.unknownArgument word)

/-- Reads the words of a command line, the program's name left out. -/
def readWords : List Bytes → Except ArgumentFault (Action × Options)
  | [] => .error .noCommand
  | word :: rest =>
    match Action.ofName? word with
    | none => .error (.unknownCommand word)
    | some action => do return (action, ← readOptions rest {})

/-! ### Paths -/

def refuse {α : Type} (fault : ArgumentFault) : Program α := .report fault.problem

/-- The canonical path of a value. -/
def canonicalPath (flag : Flag) (value : Bytes) : Program Path := do
  match ← Program.request (.canonical ⟨value⟩) with
  | .ok path => return path
  | .error _ => refuse (.notCanonical flag value)

def existingFile (flag : Flag) (value : Bytes) : Program Path := do
  if ← Storage.isRegularFile ⟨value⟩ then canonicalPath flag value
  else refuse (.notFile flag value)

def existingDirectory (flag : Flag) (value : Bytes) : Program Path := do
  if ← Storage.isDirectory ⟨value⟩ then canonicalPath flag value
  else refuse (.notDirectory flag value)

/-- The absolute path of an output directory, which need not exist yet. -/
def outputDirectory (value : Bytes) : Program Path := do
  if value.isEmpty then refuse .emptyOutDir
  else
    match ← Storage.absolute ⟨value⟩ with
    | .ok path => return path
    | .error _ => refuse (.unresolvedOutDir value)

/-- Checks a value that need not be given. -/
def optionally (check : Bytes → Program Path) : Option Bytes → Program (Option Path)
  | none => return none
  | some value => return some (← check value)

/-- Checks what the options say about paths. -/
def checkPaths (action : Action) (options : Options) : Program Invocation := do
  if options.manifest.isSome && action ≠ .verify then refuse .strayManifest
  else
    let configFile ← optionally (existingFile .config) options.config
    let root ← optionally (existingDirectory .root) options.root
    let manifestFile ← optionally (existingFile .manifest) options.manifest
    let outDir ← optionally outputDirectory options.outDir
    return ⟨action, configFile, root, outDir, manifestFile, options.verbose⟩

/-- Reads and checks a command line, the program's name left out. -/
def parse (words : List Bytes) : Program Invocation := do
  let (action, options) ← .ofResult ArgumentFault.problem (readWords words)
  checkPaths action options

end Chronicle.Command
