import Chronicle.Json.Printer
import Chronicle.Json.Reader
import Chronicle.Storage.File

/-!
The checkpoint: how far each log has been read.

It is written as a whole, and with every path as it is. A checkpoint that is missing or cannot be used counts
as empty, so that every log is read from its start.
-/

namespace Chronicle.Tail

/-- The offset reached in each log, by the path of the log. -/
abbrev Offsets := Table Nat

def offsetsDocument (offsets : Offsets) : Json :=
  .object (offsets.entries.map fun (path, offset) => (path, .nat offset))

/-- Takes over the members that are offsets. -/
def readOffsets : List (Bytes × Json) → Program Offsets
  | [] => return .empty
  | (path, value) :: rest => do
    match value.natural? with
    | some offset => return (← readOffsets rest).insert path offset
    | none =>
      Program.logDebug (utf8 "Checkpoint: ignoring entry " ++ path)
      readOffsets rest

def fromTheStart : Bytes := utf8 ", starting from offset 0"

/-- The saved offsets. -/
def loadOffsets (path : Path) : Program Offsets := do
  if ← Storage.pathExists path then
    match ← (Storage.contentOf path).attempt with
    | .error problem =>
      Program.logWarning (utf8 "Checkpoint: " ++ problem.message ++ fromTheStart)
      return .empty
    | .ok text =>
      match Json.read? text with
      | some (.object members) => readOffsets members
      | _ =>
        Program.logWarning (utf8 "Checkpoint: corrupt state at " ++ path.text ++ fromTheStart)
        return .empty
  else
    Program.logDebug (utf8 "Checkpoint: no state at " ++ path.text ++ fromTheStart)
    return .empty

def offsetsText (offsets : Offsets) : Bytes := (offsetsDocument offsets).indented ++ [Bytes.newline]

/-- What printing a path ends with that does not consist of whole characters. -/
def brokenText : Bytes := utf8 "invalid UTF-8 byte"

/-- Replaces the checkpoint. Nothing may be replaced in its text: a path that does not consist of whole
characters cannot be printed, and trying to is a crash. -/
def saveOffsets (path : Path) (offsets : Offsets) : Program Path :=
  if (offsetsDocument offsets).isWhole then Storage.writeAtomically path (offsetsText offsets)
  else .fail (.crashed brokenText)

/-! ### What can be printed -/

/-- Every path consists of whole characters. -/
def Printable (offsets : Offsets) : Prop := ∀ entry ∈ offsets.entries, Utf8.isValid entry.1 = true

instance (offsets : Offsets) : Decidable (Printable offsets) := List.decidableBAll _ offsets.entries

theorem haveWhole_offsets (entries : List (Bytes × Nat)) :
    Json.haveWhole (entries.map fun (path, offset) => (path, .nat offset)) =
      entries.all fun entry => Utf8.isValid entry.1 := by
  induction entries with
  | nil => rfl
  | cons entry rest ih =>
    rw [List.map_cons, List.all_cons, ← ih]
    simp [Json.haveWhole, Json.nat, Json.isWhole]

theorem isWhole_offsetsDocument {offsets : Offsets} :
    (offsetsDocument offsets).isWhole = true ↔ Printable offsets := by
  rw [offsetsDocument, Json.isWhole, haveWhole_offsets, List.all_eq_true]
  rfl

theorem saveOffsets_of_printable {offsets : Offsets} (h : Printable offsets) (path : Path) :
    saveOffsets path offsets = Storage.writeAtomically path (offsetsText offsets) :=
  if_pos (isWhole_offsetsDocument.mpr h)

theorem saveOffsets_of_not_printable {offsets : Offsets} (h : ¬ Printable offsets) (path : Path) :
    saveOffsets path offsets = .fail (.crashed brokenText) :=
  if_neg fun hwhole => h (isWhole_offsetsDocument.mp hwhole)

end Chronicle.Tail
