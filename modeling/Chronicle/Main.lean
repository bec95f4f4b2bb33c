import Chronicle.Command.Run
import Std.Async.Signal
import Std.Time.Format

/-!
The command line program: requests are answered by the system it runs on.

Paths go to the system as texts, so a path that is no text is one that leads nowhere. The signals that
ask a program to stop end it at once, until it asks for the first time whether a stop is requested: from
then on they are noted.
-/

namespace Chronicle.Console

/-! ### Errors -/

/-- The number and the text of a refusal. -/
def refusal : IO.Error → UInt32 × String
  | .alreadyExists _ number text => (number, text)
  | .otherError number text => (number, text)
  | .resourceBusy number text => (number, text)
  | .resourceVanished number text => (number, text)
  | .unsupportedOperation number text => (number, text)
  | .hardwareFault number text => (number, text)
  | .unsatisfiedConstraints number text => (number, text)
  | .illegalOperation number text => (number, text)
  | .protocolError number text => (number, text)
  | .timeExpired number text => (number, text)
  | .interrupted _ number text => (number, text)
  | .noFileOrDirectory _ number text => (number, text)
  | .invalidArgument _ number text => (number, text)
  | .permissionDenied _ number text => (number, text)
  | .resourceExhausted _ number text => (number, text)
  | .inappropriateType _ number text => (number, text)
  | .noSuchThing _ number text => (number, text)
  | .unexpectedEof => (0, "end of file")
  | .userError text => (0, text)

/-- The reason of a refusal. Its number may come with either sign. -/
def reasonOf (error : IO.Error) : Errno :=
  let (number, text) := refusal error
  match number.toInt32.toInt.natAbs, text with
  | 2, _ => .noEntry
  | 16, _ => .busy
  | 17, _ => .exists
  | 20, _ => .notDirectory
  | 21, _ => .isDirectory
  | 22, _ => .invalid
  | 24, _ => .tooManyFiles
  | 36, _ => .nameTooLong
  | 39, _ => .notEmpty
  | 40, _ => .tooManyLinks
  | 95, _ => .notSupported
  | _, text => .other (utf8 text)

/-- The result of an action, or why it was refused. -/
def attempted {α : Type} (action : IO α) : IO (Except Errno α) := do
  match ← action.toBaseIO with
  | .ok value => return .ok value
  | .error error => return .error (reasonOf error)

/-- Why an action was refused, if it was. -/
def refused (action : IO Unit) : IO (Option Errno) := do
  match ← attempted action with
  | .ok _ => return none
  | .error reason => return some reason

/-! ### Paths -/

/-- The text of bytes, as far as they are one. -/
def textOf? (bytes : Bytes) : Option String := String.fromUTF8? ⟨bytes.toArray⟩

/-- Acts on the text of a path. -/
def onText {α : Type} (path : Path) (action : String → IO α) : IO α :=
  match textOf? (Disk.systemText path) with
  | some text => action text
  | none => throw (.noFileOrDirectory "" 2 "No such file or directory")

/-- What a path leads to, links followed. -/
def metadataOf (text : String) : IO IO.FS.Metadata :=
  let place : IO.FS.DirEntry := ⟨text, ""⟩
  place.root.metadata

/-- What a path leads to, a link being what it is. -/
def ownMetadataOf (text : String) : IO IO.FS.Metadata :=
  let place : IO.FS.DirEntry := ⟨text, ""⟩
  place.root.symlinkMetadata

def namesIn (text : String) : IO (List String) := do
  let place : IO.FS.DirEntry := ⟨text, ""⟩
  return (← place.root.readDir).toList.map (·.fileName)

def statusOf (path : Path) : IO (Except Errno Disk.Status) :=
  attempted <| onText path fun text => do
    let metadata ← metadataOf text
    match metadata.type with
    | .file => return ⟨.regular, metadata.byteSize.toNat⟩
    | .dir => return ⟨.directory, 0⟩
    | _ => return ⟨.special, 0⟩

def isRegular (path : Path) : IO Bool := do
  match ← statusOf path with
  | .ok status => return status.kind = .regular
  | .error _ => return false

/-! ### Directories -/

/-- Makes a directory unless there is one already. -/
def makeDirectory (path : Path) : IO (Option Errno) := do
  match ← refused (onText path fun text => IO.FS.createDir text) with
  | some .exists =>
    match ← statusOf path with
    | .ok ⟨.directory, _⟩ => return none
    | _ => return some .exists
  | result => return result

/-- Makes a directory and all that is missing above it, in at most so many steps. -/
def makeDirectories : Nat → Path → IO (Option Errno)
  | 0, _ => return some .nameTooLong
  | steps + 1, path => do
    match ← statusOf path with
    | .ok status => return if status.kind = .directory then none else some .notDirectory
    | .error reason =>
      if !Disk.isMissing reason then return some reason
      else
        let above ← if path.parent.isEmpty then pure none else makeDirectories steps path.parent
        match above with
        | some reason => return some reason
        | none => if path.fileName.isEmpty then return none else makeDirectory path

/-- The entries of a directory. -/
def entriesOf (path : Path) : IO (List Disk.Found) := do
  let names ← onText path namesIn
  names.mapM fun name => do
    let path := path.join (utf8 name)
    return ⟨path, ← isRegular path⟩

/-- Whether a path leads to a directory without a link at its end. -/
def isOwnDirectory (path : Path) : IO Bool := do
  match ← attempted (onText path ownMetadataOf) with
  | .ok metadata => return metadata.type == .dir
  | .error _ => return false

/-- The entries below a directory in at most so many levels. -/
def entriesBelow : Nat → Path → IO (List Disk.Found)
  | 0, _ => return []
  | depth + 1, path => do
    let found ← entriesOf path
    let parts ← found.mapM fun entry => do
      if ← isOwnDirectory entry.path then return entry :: (← entriesBelow depth entry.path)
      else return [entry]
    return parts.flatten

/-! ### Files -/

def contentOf (path : Path) : IO Disk.ReadResult := do
  match ← attempted (onText path fun text => IO.FS.Handle.mk text .read) with
  | .error _ => return .unopened
  | .ok handle =>
    match ← attempted handle.readBinToEnd with
    | .ok bytes => return .content bytes.toList
    | .error _ => return .unreadable

def writeWith (mode : IO.FS.Mode) (path : Path) (data : Bytes) : IO Disk.WriteResult := do
  match ← attempted (onText path fun text => IO.FS.Handle.mk text mode) with
  | .error _ => return .unopened
  | .ok handle =>
    match ← attempted (do handle.write ⟨data.toArray⟩; handle.flush) with
    | .ok _ => return .written
    | .error _ => return .cutShort

/-- Reads up to a place, in at most so many steps. -/
def skipTo (handle : IO.FS.Handle) : Nat → Nat → IO Unit
  | _, 0 => return ()
  | 0, _ => return ()
  | steps + 1, left => do
    let bytes ← handle.read (min left 65536).toUSize
    if bytes.isEmpty then return () else skipTo handle steps (left - bytes.size)

/-- Cuts a file at a place that lies in it. -/
def truncate (path : Path) (size : Nat) : IO Unit :=
  onText path fun text => do
    let handle ← IO.FS.Handle.mk text .readWrite
    skipTo handle size size
    handle.truncate

def remove (path : Path) : IO Unit :=
  onText path fun text => do
    match (← ownMetadataOf text).type with
    | .dir => IO.FS.removeDir text
    | _ => IO.FS.removeFile text

/-! ### Stops -/

/-- A signal that is waited for, and what is done once it has come. -/
structure Watcher where
  waiter : Std.Async.Signal.Waiter
  arrival : Task (Except IO.Error Int)

/-- Notes the signals that ask a program to stop, however often they come. -/
def watchForStops : IO (List Watcher) :=
  [Std.Async.Signal.sigint, .sigterm].mapM fun signal => do
    let waiter ← Std.Async.Signal.Waiter.mk signal true
    return ⟨waiter, ← waiter.wait⟩

/-- What answers depend on besides the system. -/
structure Session where
  logger : IO.Ref Log.Logger
  /-- empty as long as stops are not noted -/
  watchers : IO.Ref (List Watcher)

def Session.start : IO Session := return ⟨← IO.mkRef {}, ← IO.mkRef []⟩

def Session.stopRequested (session : Session) : IO Bool := do
  if (← session.watchers.get).isEmpty then session.watchers.set (← watchForStops)
  (← session.watchers.get).anyM fun watcher => IO.hasFinished watcher.arrival

/-! ### Answering -/

/-- Writes a line at once. -/
def printLine (stream : Log.Stream) (line : Bytes) : IO Unit := do
  let stream ← match stream with
    | .output => IO.getStdout
    | .errors => IO.getStderr
  stream.write ⟨(line ++ [Bytes.newline]).toArray⟩
  stream.flush

def log (session : Session) (level : Log.Level) (message : Bytes) : IO Unit := do
  let logger ← session.logger.get
  if logger.shows level then printLine level.stream (logger.line level message)

/-- The answer of the system to a request. -/
def answer (session : Session) : (request : Request) → IO request.Answer
  | .status path => statusOf path
  | .makeDirectories path => makeDirectories (path.text.length + 1) path
  | .read path => contentOf path
  | .overwrite path data => writeWith .write path data
  | .append path data => writeWith .append path data
  | .rename source target =>
    refused (onText source fun source => onText target fun target => IO.FS.rename source target)
  | .remove path => refused (remove path)
  | .truncate path size => refused (truncate path size)
  | .list path => do
    match ← attempted (entriesOf path) with
    | .ok found => return found
    | .error _ => return []
  | .walk path => attempted (entriesBelow Disk.longestPath path)
  | .canonical path =>
    attempted (onText path fun text => do return .ofString (← IO.FS.realPath text).toString)
  | .workingDirectory => attempted (do return .ofString (← IO.currentDir).toString)
  | .home => do return (← IO.getEnv "HOME").map utf8
  | .log level message => log session level message
  | .setContext context => session.logger.modify fun logger => { logger with context := context }
  | .setLeast level => session.logger.modify fun logger => { logger with least := level }
  | .draws count => (List.range count).mapM fun _ => IO.rand 0 15
  | .drawBelow bound => do return UInt64.ofNat (← IO.rand 0 (bound.toNat - 1))
  | .now => do return (← Std.Time.Timestamp.now).toMillisecondsSinceUnixEpoch.val
  | .stopRequested => session.stopRequested
  | .pause milliseconds => IO.sleep milliseconds.toUInt32

/-- Runs a program on the system. -/
def perform {α : Type} (session : Session) : Program α → IO (Except Failure α)
  | .done value => return .ok value
  | .fail failure => return .error failure
  | .ask request next => do perform session (next (← answer session request))

/-- More cycles than a program can live to see. -/
def endless : Nat := UInt64.size

/-- Carries out the words of a command line and gives the exit code. -/
def runWords (words : List String) : IO UInt32 := do
  match ← perform (← Session.start) (Command.execute endless (words.map utf8)) with
  | .ok code => return code.toUInt32
  | .error (.reported problem) => throw (.userError ((textOf? problem.message).getD ""))
  | .error (.crashed text) => throw (.userError ((textOf? text).getD ""))

end Chronicle.Console

def main (words : List String) : IO UInt32 := Chronicle.Console.runWords words
