import Chronicle.Json.Reader
import Chronicle.Spool.Event
import Chronicle.Table

/-!
What one cycle has to persist as a unit, and its document.
-/

namespace Chronicle.Commit

/-- Events for the end of a spool, and the size of the spool without them. -/
structure Append where
  bundleId : Bytes
  baseSize : Nat
  events : List Spool.Event
  deriving Repr

/-- New spool lines, the checkpoint they belong to, and the bundles that are still to be published. -/
structure Pending where
  appends : List Append := []
  checkpoint : Table Nat := .empty
  unpublished : Names := []
  deriving Repr

namespace Pending

open Trace (member)

def appendDocument (append : Append) : Json :=
  .ofMembers
    [member "baseSize" (.nat append.baseSize),
     member "events" (.array (append.events.map Spool.Event.document))]

def document (pending : Pending) : Json :=
  .ofMembers
    [member "spools"
      (.ofMembers (pending.appends.map fun append => (append.bundleId, appendDocument append))),
     member "checkpoint"
      (.object (pending.checkpoint.entries.map fun (path, offset) => (path, .nat offset))),
     member "unpublished" (.array (pending.unpublished.map .string))]

/-! ### Reading -/

/-- What cannot be read in the document of a commit. -/
inductive Corruption
  | parts
  | append (bundleId : Bytes)
  | event (bundleId : Bytes)
  | offset (path : Bytes)
  | unpublished
  deriving DecidableEq, Repr

def Corruption.message : Corruption → Bytes
  | parts => utf8 "missing spools, checkpoint or unpublished"
  | append bundleId => utf8 "bad spool entry " ++ bundleId
  | event bundleId => utf8 "bad event for " ++ bundleId
  | offset path => utf8 "bad offset for " ++ path
  | unpublished => utf8 "bad unpublished entry"

def appendOf (bundleId : Bytes) (entry : Json) : Except Corruption Append :=
  match (entry.find? (utf8 "baseSize")).bind Json.natural?, entry.find? (utf8 "events") with
  | some baseSize, some (.array events) => do
    let events ← events.mapM fun event =>
      match Spool.Event.ofDocument? event with
      | some event => .ok event
      | none => .error (.event bundleId)
    return ⟨bundleId, baseSize, events⟩
  | _, _ => .error (.append bundleId)

def offsetOf (path : Bytes) (value : Json) : Except Corruption (Bytes × Nat) :=
  match value.natural? with
  | some offset => .ok (path, offset)
  | none => .error (.offset path)

def nameOf : Json → Except Corruption Bytes
  | .string name => .ok name
  | _ => .error .unpublished

/-- Reads a commit back. -/
def ofDocument (document : Json) : Except Corruption Pending :=
  match document.find? (utf8 "spools"), document.find? (utf8 "checkpoint"),
      document.find? (utf8 "unpublished") with
  | some (.object spools), some (.object checkpoint), some (.array unpublished) => do
    return {
      appends := ← spools.mapM fun (bundleId, entry) => appendOf bundleId entry
      checkpoint := .ofList (← checkpoint.mapM fun (path, value) => offsetOf path value)
      unpublished := .ofList (← unpublished.mapM nameOf) }
  | _, _, _ => .error .parts

end Pending

end Chronicle.Commit
