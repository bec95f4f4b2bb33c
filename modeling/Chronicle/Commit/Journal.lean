import Chronicle.Commit.Pending
import Chronicle.Spool.Store
import Chronicle.Tail.Checkpoint

/-!
Committing a cycle through a journal.

The whole commit is written to the journal first and then carried out step by step; the last step removes
the journal. A journal that is found later belongs to a commit that was interrupted, and all its steps
are carried out again: a spool is cut back to its base size before lines are added, so no line is there
twice.
-/

namespace Chronicle.Commit

/-- Where a journal and what it protects are kept. -/
structure Journal where
  path : Path
  checkpoint : Path
  unpublished : Path
  deriving DecidableEq, Repr

/-- Why a commit cannot be finished or found again. -/
inductive JournalFault
  | notRemoved (path : Path) (reason : Errno)
  | unreadable (path : Path)
  | corrupt (what : Pending.Corruption)
  deriving DecidableEq, Repr

namespace JournalFault

def message : JournalFault → Bytes
  | notRemoved path reason =>
    utf8 "Unable to remove commit journal: " ++ path.text ++ utf8 " (" ++ reason.message ++ utf8 ")"
  | unreadable path => utf8 "Commit journal is not JSON: " ++ path.text
  | corrupt what => utf8 "Corrupt commit journal: " ++ what.message

def fallbackHint : Bytes := utf8 "Remove the journal to fall back to the last saved checkpoint"

def problem (fault : JournalFault) : Problem :=
  match fault with
  | notRemoved _ _ =>
    { category := .io, message := fault.message, code := utf8 "journal_remove_failed" }
  | unreadable _ | corrupt _ =>
    { category := .parse, message := fault.message, code := utf8 "journal_corrupt"
      hint := fallbackHint }

end JournalFault

/-- One step of carrying out a commit. -/
inductive Step
  | cutSpool (bundleId : Bytes) (size : Nat)
  | extendSpool (bundleId : Bytes) (events : List Spool.Event)
  | saveCheckpoint (offsets : Tail.Offsets)
  | saveUnpublished (bundleIds : Names)
  | removeJournal
  deriving Repr

/-- The steps of a commit in the order in which they are carried out. -/
def Pending.steps (pending : Pending) : List Step :=
  (pending.appends.flatMap fun append =>
    [.cutSpool append.bundleId append.baseSize, .extendSpool append.bundleId append.events]) ++
    [.saveCheckpoint pending.checkpoint, .saveUnpublished pending.unpublished, .removeJournal]

namespace Journal

/-- Replaces the list of bundles that are still to be published. -/
def saveUnpublished (journal : Journal) (bundleIds : Names) : Program Path :=
  Storage.writeAtomically journal.unpublished
    ((Json.array (bundleIds.map .string)).indented ++ [Bytes.newline])

def removeJournal (journal : Journal) : Program Unit := do
  match ← Program.request (.remove journal.path) with
  | none | some .noEntry => return ()
  | some reason => .report (JournalFault.notRemoved journal.path reason).problem

def runStep (journal : Journal) (spool : Spool.Store) : Step → Program Unit
  | .cutSpool bundleId size => do
    let _ ← spool.truncate bundleId size
  | .extendSpool bundleId events => do
    let _ ← spool.append bundleId events
  | .saveCheckpoint offsets => do
    let _ ← Tail.saveOffsets journal.checkpoint offsets
  | .saveUnpublished bundleIds => do
    let _ ← journal.saveUnpublished bundleIds
  | .removeJournal => journal.removeJournal

/-- Carries out steps until one fails. -/
def runSteps (journal : Journal) (spool : Spool.Store) : List Step → Program Unit
  | [] => return ()
  | step :: rest => do
    journal.runStep spool step
    journal.runSteps spool rest

/-- Carries out a commit that is in the journal. -/
def apply (journal : Journal) (spool : Spool.Store) (pending : Pending) : Program Path := do
  journal.runSteps spool pending.steps
  return journal.checkpoint

/-- The text of the journal of a commit. -/
def textOf (pending : Pending) : Bytes := pending.document.compact ++ [Bytes.newline]

/-- Writes a commit to the journal and carries it out. -/
def commit (journal : Journal) (spool : Spool.Store) (pending : Pending) : Program Path := do
  let _ ← Storage.writeAtomically journal.path (textOf pending)
  journal.apply spool pending

/-- Reads the text of a journal. -/
def read (journal : Journal) (text : Bytes) : Except JournalFault Pending :=
  match Json.read? text with
  | none => .error (.unreadable journal.path)
  | some document =>
    match Pending.ofDocument document with
    | .error what => .error (.corrupt what)
    | .ok pending => .ok pending

/-- Carries out a commit that was interrupted, and says whether there was one. -/
def recover (journal : Journal) (spool : Spool.Store) : Program Bool := do
  if ← Storage.pathExists journal.path then
    let pending ← .ofResult JournalFault.problem (journal.read (← Storage.contentOf journal.path))
    Program.logWarning
      (utf8 "CommitJournal: replaying interrupted commit from " ++ journal.path.text)
    let _ ← journal.apply spool pending
    return true
  else return false

/-- The bundles that are still to be published; a list that cannot be used counts as empty. -/
def loadUnpublished (journal : Journal) : Program Names := do
  if ← Storage.pathExists journal.unpublished then
    match ← (Storage.contentOf journal.unpublished).attempt with
    | .error problem =>
      Program.logWarning (utf8 "CommitJournal: " ++ problem.message)
      return []
    | .ok text =>
      match Json.read? text with
      | some (.array items) => return .ofList (items.filterMap Json.string?)
      | _ =>
        Program.logWarning
          (utf8 "CommitJournal: corrupt unpublished list at " ++ journal.unpublished.text)
        return []
  else return []

end Journal

end Chronicle.Commit
