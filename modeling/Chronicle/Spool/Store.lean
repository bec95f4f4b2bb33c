import Chronicle.Json.Reader
import Chronicle.Spool.BundleId
import Chronicle.Storage.File

/-!
The spool: for each bundle a file of events, one a line.

A file that is missing counts as empty. Lines are added at the end, and a spool can be cut back to a size
it had before. Lines that cannot be read are skipped.
-/

namespace Chronicle.Spool

/-- A directory of spool files. -/
structure Store where
  directory : Path
  deriving DecidableEq, Repr

inductive StoreFault
  | invalidId (bundleId : Bytes)
  | noStatus (path : Path) (reason : Errno)
  | tooShort (path : Path) (size wanted : Nat)
  | notTruncated (path : Path) (reason : Errno)
  deriving DecidableEq, Repr

namespace StoreFault

def message : StoreFault → Bytes
  | invalidId bundleId => utf8 "Invalid bundle ID: " ++ bundleId
  | noStatus path reason =>
    utf8 "Unable to stat spool: " ++ path.text ++ utf8 " (" ++ reason.message ++ utf8 ")"
  | tooShort path size wanted =>
    utf8 "Spool " ++ path.text ++ utf8 " has " ++ Bytes.decimal size ++
      utf8 " bytes, expected at least " ++ Bytes.decimal wanted
  | notTruncated path reason =>
    utf8 "Unable to truncate spool: " ++ path.text ++ utf8 " (" ++ reason.message ++ utf8 ")"

def problem (fault : StoreFault) : Problem :=
  match fault with
  | invalidId _ => { category := .input, message := fault.message, code := utf8 "invalid_bundle_id" }
  | noStatus _ _ => { category := .io, message := fault.message, code := utf8 "spool_stat_failed" }
  | tooShort _ _ _ =>
    { category := .integrity, message := fault.message, code := utf8 "spool_truncated" }
  | notTruncated _ _ =>
    { category := .io, message := fault.message, code := utf8 "spool_truncate_failed" }

end StoreFault

namespace Store

/-- The file of a bundle. -/
def file? (store : Store) (bundleId : Bytes) : Except StoreFault Path :=
  if isSafe bundleId then .ok (store.directory.join (bundleId ++ utf8 ".jsonl"))
  else .error (.invalidId bundleId)

def file (store : Store) (bundleId : Bytes) : Program Path :=
  .ofResult StoreFault.problem (store.file? bundleId)

/-- The size of a spool in bytes. A path without a status counts as missing. -/
def size (store : Store) (bundleId : Bytes) : Program Nat := do
  let path ← store.file bundleId
  if ← Storage.pathExists path then
    match ← Storage.fileSize path with
    | .ok size => return size
    | .error reason => .report (StoreFault.noStatus path reason).problem
  else return 0

/-- Cuts a file of a known size, which has to be large enough. -/
def cutFile (path : Path) (current size : Nat) : Program Path :=
  if current = size then return path
  else if current < size then .report (StoreFault.tooShort path current size).problem
  else do
    match ← Program.request (.truncate path size) with
    | some reason => .report (StoreFault.notTruncated path reason).problem
    | none => return path

/-- Cuts a spool back to a size it has had. -/
def truncate (store : Store) (bundleId : Bytes) (size : Nat) : Program Path := do
  let current ← store.size bundleId
  cutFile (← store.file bundleId) current size

/-- Adds events at the end of a spool; no events leave it alone. -/
def append (store : Store) (bundleId : Bytes) (events : List Event) : Program Path := do
  let path ← store.file bundleId
  if events.isEmpty then return path else Storage.appendTo path (lines events)

/-- The events of lines counted from a number on. -/
def readLines (path : Path) : Nat → List Bytes → Program (List Event)
  | _, [] => return []
  | number, line :: rest => do
    if line.isEmpty then readLines path (number + 1) rest
    else match (Json.read? line).bind Event.ofDocument? with
      | some event => return event :: (← readLines path (number + 1) rest)
      | none =>
        Program.logWarning
          (utf8 "SpoolStore: skipping corrupt line " ++ Bytes.decimal number ++ utf8 " of "
            ++ path.text)
        readLines path (number + 1) rest

/-- The events of a spool. -/
def read (store : Store) (bundleId : Bytes) : Program (List Event) := do
  let path ← store.file bundleId
  if ← Storage.pathExists path then
    readLines path 1 (Bytes.splitOn Bytes.newline (← Storage.contentOf path))
  else return []

end Store

end Chronicle.Spool
