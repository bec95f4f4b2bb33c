import Chronicle.Disk.Resolve

/-!
What the operating system does to a disk.

Each operation takes the disk, the working directory and a path, and says why it is refused or what it
did. Opening a file for writing follows links and creates what is missing in a directory that exists;
renaming and removing act on a link itself.
-/

namespace Chronicle.Disk

/-! ### Looking -/

inductive Kind
  | regular
  | directory
  | special
  deriving DecidableEq, Repr

structure Status where
  kind : Kind
  size : Nat
  deriving DecidableEq, Repr

def statusOf : Entry → Status
  | .file content => ⟨.regular, content.length⟩
  | .directory => ⟨.directory, 0⟩
  | _ => ⟨.special, 0⟩

/-- Kind and size of what a path leads to, links followed. -/
def status (disk : Disk) (here : Standing) (path : Path) : Except Errno Status :=
  match disk.resolve here true path with
  | .error reason => .error reason
  | .ok (.absent _ _) => .error .noEntry
  | .ok (.present _ entry) => .ok (statusOf entry)

/-- The absolute path of an entry. -/
def pathOf (key : Key) : Path :=
  if key.isEmpty then ⟨[Bytes.slash]⟩ else ⟨Bytes.joinedAfter [Bytes.slash] key⟩

/-- The path of the working directory, unless it has been removed. -/
def workingDirectory : Standing → Except Errno Path
  | .inside key => .ok (pathOf key)
  | .detached _ => .error .noEntry

/-- The absolute path, without links and dots, of what a path leads to. -/
def canonical (disk : Disk) (here : Standing) (path : Path) : Except Errno Path := do
  if !path.isAbsolute then
    let _ ← workingDirectory here
  match ← disk.resolve here true path with
  | .present (.inside key) _ => return pathOf key
  | _ => .error .noEntry

/-- A file found in a directory, with whether it is a regular file once links are followed. -/
structure Found where
  path : Path
  regular : Bool
  deriving DecidableEq, Repr

def found (disk : Disk) (here : Standing) (path : Path) : Entry → Found
  | .file _ => ⟨path, true⟩
  | .link _ =>
    ⟨path, match disk.status here path with
      | .ok status => status.kind = .regular
      | .error _ => false⟩
  | _ => ⟨path, false⟩

/-- The entries of a directory; what is no directory has none. -/
def list (disk : Disk) (here : Standing) (path : Path) : List Found :=
  match disk.resolve here true path with
  | .ok (.present (.inside key) .directory) =>
    (disk.children key).map fun (name, entry) => disk.found here (path.join name) entry
  | _ => []

/-- The entries below a directory in `depth` levels; links to directories are not entered. -/
def walkFrom (disk : Disk) (here : Standing) : Nat → Key → Path → List Found
  | 0, _, _ => []
  | depth + 1, key, path =>
    (disk.children key).flatMap fun (name, entry) =>
      disk.found here (path.join name) entry ::
        if entry = .directory then walkFrom disk here depth (key ++ [name]) (path.join name) else []

/-- The entries below a directory in all levels. No entry is nested deeper than there are entries. -/
def walk (disk : Disk) (here : Standing) (path : Path) : Except Errno (List Found) :=
  match disk.resolve here true path with
  | .error reason => .error reason
  | .ok (.absent _ _) => .error .noEntry
  | .ok (.present (.inside key) .directory) =>
    .ok (disk.walkFrom here disk.entries.length key path)
  | .ok (.present (.detached _) _) => .ok []
  | .ok (.present _ _) => .error .notDirectory

/-! ### Directories -/

def makeDirectory (disk : Disk) (here : Standing) (path : Path) : Except Errno Disk :=
  match disk.resolve here false path with
  | .error reason => .error reason
  | .ok (.present _ _) => .error .exists
  | .ok (.absent key _) => .ok (disk.set key .directory)

/-- Makes a directory unless there is one already. -/
def ensureDirectory (disk : Disk) (here : Standing) (path : Path) : Except Errno Disk :=
  match disk.makeDirectory here path with
  | .ok disk => .ok disk
  | .error reason =>
    match reason, disk.status here path with
    | .exists, .ok ⟨.directory, _⟩ => .ok disk
    | _, _ => .error reason

def isMissing : Errno → Bool
  | .noEntry => true
  | .notDirectory => true
  | _ => false

/-- The paths to make, outermost first, on the way up to a directory that exists. -/
def missingDirectories (disk : Disk) (here : Standing) :
    Nat → Path → List Path → Except Errno (List Path)
  | 0, _, _ => .error .nameTooLong
  | steps + 1, path, inner =>
    let dotted := path.fileName == [Bytes.dot] || path.fileName == [Bytes.dot, Bytes.dot]
    let missing := if dotted then inner else path :: inner
    let up := path.parent
    if 1000 < missing.length then .error .nameTooLong
    else if up.isEmpty then .ok missing
    else match disk.status here up with
      | .ok status => if status.kind = .directory then .ok missing else .error .notDirectory
      | .error reason =>
        if isMissing reason then missingDirectories disk here steps up missing else .error reason

/-- Makes directories in turn until one is refused. -/
def ensureAll (here : Standing) : List Path → Disk → Option Errno × Disk
  | [], disk => (none, disk)
  | path :: rest, disk =>
    match disk.ensureDirectory here path with
    | .ok disk => ensureAll here rest disk
    | .error reason => (some reason, disk)

/-- Makes a directory and all that is missing above it; what was made before a refusal stays. -/
def makeDirectories (disk : Disk) (here : Standing) (path : Path) : Option Errno × Disk :=
  if path.isEmpty then (some .invalid, disk)
  else match disk.status here path with
    | .ok status => (if status.kind = .directory then none else some .notDirectory, disk)
    | .error reason =>
      if isMissing reason then
        let start := if path.fileName.isEmpty then path.parent else path
        match disk.missingDirectories here (path.text.length + 1) start [] with
        | .ok missing => ensureAll here missing disk
        | .error reason => (some reason, disk)
      else (some reason, disk)

/-! ### Files -/

/-- What a process may use. -/
structure Limits where
  /-- whether a file or directory can be opened at all -/
  opening : Bool := true
  /-- the size that no write may take a file beyond -/
  largestFile : Option Nat := none
  deriving DecidableEq, Repr

inductive ReadResult
  | content (bytes : Bytes)
  | unopened
  /-- opened, but not to be read -/
  | unreadable
  /-- zeros, however many are read -/
  | endless
  deriving DecidableEq, Repr

/-- Reads a file whole. A directory can be opened, but reading it fails, and a device has no end. -/
def read (disk : Disk) (here : Standing) (limits : Limits) (path : Path) : ReadResult :=
  if !limits.opening then .unopened
  else match disk.resolve here true path with
    | .ok (.present _ (.file content)) => .content content
    | .ok (.present _ .directory) => .unreadable
    | .ok (.present _ .fullDevice) => .endless
    | _ => .unopened

inductive WriteResult
  | written
  | unopened
  /-- a part of the data is there at most -/
  | cutShort
  deriving DecidableEq, Repr

/-- What a file holds after data has been put behind its content, as far as it may grow. -/
def grown (limits : Limits) (content data : Bytes) : WriteResult × Bytes :=
  match limits.largestFile with
  | none => (.written, content ++ data)
  | some largest =>
    let room := largest - content.length
    (if data.length ≤ room then .written else .cutShort, content ++ data.take room)

/-- Writes data behind what is kept of a file's content, creating the file if it is missing. -/
def writeBehind (disk : Disk) (here : Standing) (limits : Limits) (keep : Bytes → Bytes)
    (path : Path) (data : Bytes) : WriteResult × Disk :=
  if !limits.opening then (.unopened, disk)
  else match disk.resolve here true path with
    | .ok (.present (.inside key) (.file content)) =>
      let (result, content) := grown limits (keep content) data
      (result, disk.set key (.file content))
    | .ok (.present _ .fullDevice) => (if data.isEmpty then .written else .cutShort, disk)
    | .ok (.absent key false) =>
      let (result, content) := grown limits [] data
      (result, disk.set key (.file content))
    | _ => (.unopened, disk)

/-- Replaces the content of a file. -/
def overwrite (disk : Disk) (here : Standing) (limits : Limits) (path : Path) (data : Bytes) :
    WriteResult × Disk :=
  disk.writeBehind here limits (fun _ => []) path data

/-- Adds to the end of a file. -/
def append (disk : Disk) (here : Standing) (limits : Limits) (path : Path) (data : Bytes) :
    WriteResult × Disk :=
  disk.writeBehind here limits id path data

/-- Changes the size of a file, zeros filling up what is missing. -/
def truncate (disk : Disk) (here : Standing) (path : Path) (size : Nat) : Except Errno Disk :=
  match disk.resolve here true path with
  | .error reason => .error reason
  | .ok (.present (.inside key) (.file content)) =>
    .ok (disk.set key (.file (content.take size ++ List.replicate (size - content.length) 0)))
  | .ok (.present _ .directory) => .error .isDirectory
  | .ok (.absent _ _) => .error .noEntry
  | .ok (.present _ _) => .error .invalid

/-! ### Names -/

/-- The last name of a path, a trailing slash aside. -/
def lastName (path : Path) : Bytes :=
  (Path.mk (Path.trimEnd (· == Bytes.slash) (systemText path))).fileName

/-- Whether a path ends in a name that an entry can have. -/
def endsInName (path : Path) : Bool :=
  let name := lastName path
  !name.isEmpty && name != [Bytes.dot] && name != [Bytes.dot, Bytes.dot]

/-- Moves a file to another name, replacing a file or link of that name. -/
def rename (disk : Disk) (here : Standing) (source target : Path) : Except Errno Disk := do
  let .present (.inside sourceKey) entry ← disk.resolve here false source | .error .noEntry
  if entry = .directory then .error .notSupported
  if (systemText target).isEmpty then .error .noEntry
  if !endsInName target then .error .busy
  if (systemText target).getLast? = some Bytes.slash then .error .notDirectory
  match ← disk.resolve here false target with
  | .present _ .directory => .error .isDirectory
  | .present (.inside key) _ =>
    if key = sourceKey then return disk else return (disk.erase sourceKey).set key entry
  | .present (.detached _) _ => .error .isDirectory
  | .absent key _ => return (disk.erase sourceKey).set key entry

/-- Removes a file, a link or an empty directory, which has to be named by a name of its own. -/
def remove (disk : Disk) (here : Standing) (path : Path) : Except Errno Disk := do
  match ← disk.resolve here false path with
  | .absent _ _ => .error .noEntry
  | .present (.detached _) _ => .error .invalid
  | .present (.inside key) entry =>
    if key.isEmpty then .error .busy
    else if lastName path == [Bytes.dot] then .error .invalid
    else if lastName path == [Bytes.dot, Bytes.dot] then .error .notEmpty
    else if entry = .directory && !(disk.children key).isEmpty then .error .notEmpty
    else return disk.erase key

end Chronicle.Disk
