import Chronicle.Storage.File

/-!
Reading the lines that a log has gained.

A reader keeps an offset into the file. It takes the lines that have been finished since, and leaves a
line that is still being written for the next time: the new offset stands behind the last line break.
A file that has become shorter is taken up at its end.
-/

namespace Chronicle.Tail

/-- The lines of one reading, in file order and without empty ones. -/
structure Batch where
  lines : List Bytes
  startOffset : Nat
  newOffset : Nat
  fileSize : Nat
  deriving DecidableEq, Repr

/-- The finished lines of a block and what follows the last line break. -/
def splitBlock (block : Bytes) : List Bytes × Bytes :=
  let parts := Bytes.splitOn Bytes.newline block
  (parts.dropLast.filter (!·.isEmpty), parts.getLast?.getD [])

/-- The batch for a block that was read from an offset up to the end of the file. -/
def Batch.ofBlock (offset size : Nat) (block : Bytes) : Batch :=
  let (lines, unfinished) := splitBlock block
  ⟨lines, offset, size - unfinished.length, size⟩

/-- The batch of a file with this content. -/
def Batch.ofContent (content : Bytes) (offset : Nat) : Batch :=
  if content.length ≤ offset then ⟨[], offset, content.length, content.length⟩
  else .ofBlock offset content.length (content.drop offset)

/-- Why a log cannot be read now. -/
inductive ReadFault
  | noStatus (path : Path) (reason : Errno)
  | unopened (path : Path) (offset : Nat)
  | short (path : Path) (offset size : Nat)
  deriving DecidableEq, Repr

namespace ReadFault

def message : ReadFault → Bytes
  | noStatus path reason =>
    utf8 "Unable to stat log file: " ++ path.text ++ utf8 " (" ++ reason.message ++ utf8 ")"
  | unopened path _ => utf8 "Unable to open log file: " ++ path.text
  | short path offset size =>
    utf8 "Short read of " ++ path.text ++ utf8 " range [" ++ Bytes.decimal offset ++ utf8 ", "
      ++ Bytes.decimal size ++ utf8 ")"

def code : ReadFault → Bytes
  | noStatus _ _ => utf8 "log_stat_failed"
  | unopened _ _ => utf8 "log_open_failed"
  | short _ _ _ => utf8 "log_read_failed"

def hint : ReadFault → Bytes
  | noStatus _ _ => utf8 "The file may appear later; retry on the next cycle."
  | unopened _ offset | short _ offset _ =>
    utf8 "Retry from offset " ++ Bytes.decimal offset ++ utf8 "."

def problem (fault : ReadFault) : Problem where
  category := .io
  message := fault.message
  code := fault.code
  hint := fault.hint

end ReadFault

/-- The lines of a log that have been finished since an offset. -/
def readNewLines (path : Path) (offset : Nat) : Program Batch := do
  match ← Storage.fileSize path with
  | .error reason => .report (ReadFault.noStatus path reason).problem
  | .ok size =>
    if size ≤ offset then return ⟨[], offset, size, size⟩
    else
      match ← Program.request (.read path) with
      | .unopened => .report (ReadFault.unopened path offset).problem
      -- A read that fails gives no bytes.
      | .unreadable => .report (ReadFault.short path offset size).problem
      | .endless => return .ofBlock offset size (List.replicate (size - offset) 0)
      | .content content =>
        let block := (content.drop offset).take (size - offset)
        if block.length ≠ size - offset then .report (ReadFault.short path offset size).problem
        else return .ofBlock offset size block

end Chronicle.Tail
