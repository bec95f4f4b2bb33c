import Chronicle.System.Program
import Chronicle.Ident

/-!
Reading and writing files.

A file is replaced by writing a temporary file beside it and renaming that over it, so it holds either
its old content or its new content. Directories above a file that is written are made if missing.
-/

namespace Chronicle.Storage

/-- Why a file could not be read or written. -/
inductive FileFault
  | directory (parent : Path) (reason : Errno)
  | openTemporary (path : Path)
  | writeTemporary (path : Path)
  | replace (target : Path) (reason : Errno)
  | openForAppend (path : Path)
  | append (path : Path)
  | openForRead (path : Path)
  deriving DecidableEq, Repr

namespace FileFault

def message : FileFault → Bytes
  | directory parent reason =>
    utf8 "Unable to create directory: " ++ parent.text ++ utf8 " (" ++ reason.message ++ utf8 ")"
  | openTemporary path => utf8 "Unable to open temp file: " ++ path.text
  | writeTemporary path => utf8 "Unable to write temp file: " ++ path.text
  | replace target reason =>
    utf8 "Unable to replace " ++ target.text ++ utf8 ": " ++ reason.message
  | openForAppend path => utf8 "Unable to open file for append: " ++ path.text
  | append path => utf8 "Unable to append to file: " ++ path.text
  | openForRead path => utf8 "Unable to open file: " ++ path.text

def code : FileFault → Bytes
  | directory _ _ => utf8 "dir_create_failed"
  | openTemporary _ | openForAppend _ | openForRead _ => utf8 "file_open_failed"
  | writeTemporary _ | append _ => utf8 "file_write_failed"
  | replace _ _ => utf8 "file_rename_failed"

def problem (fault : FileFault) : Problem where
  category := .io
  message := fault.message
  code := fault.code

end FileFault

def failWith {α : Type} (fault : FileFault) : Program α := .report fault.problem

/-- Makes the directory above a path; a path of one name needs none. -/
def ensureParent (path : Path) : Program Unit :=
  if path.parent.isEmpty then return ()
  else do
    match ← Program.request (.makeDirectories path.parent) with
    | some reason => failWith (.directory path.parent reason)
    | none => return ()

/-- The number of random digits in the name of a temporary file. -/
def temporaryDigits : Nat := 8

/-- A hidden name beside the target that ends in random digits. -/
def temporaryPath (target : Path) (draws : List Nat) : Path :=
  target.parent.join
    (utf8 "." ++ target.fileName ++ utf8 "." ++ Ident.short (utf8 "tmp") draws)

/-- Writes a temporary file and renames it over the target; it is removed if that does not work. -/
def replaceThrough (temporary target : Path) (data : Bytes) : Program Path := do
  match ← Program.request (.overwrite temporary data) with
  | .unopened => failWith (.openTemporary temporary)
  | .cutShort =>
    let _ ← Program.request (.remove temporary)
    failWith (.writeTemporary temporary)
  | .written =>
    match ← Program.request (.rename temporary target) with
    | some reason =>
      let _ ← Program.request (.remove temporary)
      failWith (.replace target reason)
    | none => return target

/-- Replaces the content of a file in one step. -/
def writeAtomically (target : Path) (data : Bytes) : Program Path := do
  ensureParent target
  let draws ← Program.request (.draws temporaryDigits)
  replaceThrough (temporaryPath target draws) target data

/-- Adds to the end of a file. -/
def appendTo (path : Path) (data : Bytes) : Program Path := do
  ensureParent path
  match ← Program.request (.append path data) with
  | .unopened => failWith (.openForAppend path)
  | .cutShort => failWith (.append path)
  | .written => return path

/-- What a read ends with for which memory does not suffice. -/
def noMemory : Bytes := utf8 "std::bad_alloc"

/-- The content of a file. A directory can be opened like a file, and reading it is a crash; so is reading a
device that has no end. -/
def contentOf (path : Path) : Program Bytes := do
  match ← Program.request (.read path) with
  | .content content => return content
  | .unopened => failWith (.openForRead path)
  | .unreadable => .fail (.crashed Errno.isDirectory.message)
  | .endless => .fail (.crashed noMemory)

/-- Whether a path leads to something. -/
def pathExists (path : Path) : Program Bool := do
  match ← Program.request (.status path) with
  | .ok _ => return true
  | .error _ => return false

/-- Whether a path leads to a directory. -/
def isDirectory (path : Path) : Program Bool := do
  match ← Program.request (.status path) with
  | .ok status => return status.kind = .directory
  | .error _ => return false

/-- Whether a path leads to a regular file. -/
def isRegularFile (path : Path) : Program Bool := do
  match ← Program.request (.status path) with
  | .ok status => return status.kind = .regular
  | .error _ => return false

/-- The size of a regular file; nothing else has one. -/
def fileSize (path : Path) : Program (Except Errno Nat) := do
  match ← Program.request (.status path) with
  | .error reason => return .error reason
  | .ok status =>
    match status.kind with
    | .regular => return .ok status.size
    | .directory => return .error .isDirectory
    | .special => return .error .notSupported

/-- The absolute form of a path that is not empty. -/
def absolute (path : Path) : Program (Except Errno Path) := do
  if path.isEmpty then return .error .invalid
  else if path.isAbsolute then return .ok path
  else
    match ← Program.request .workingDirectory with
    | .error reason => return .error reason
    | .ok directory => return .ok (directory.join path.text)

end Chronicle.Storage
