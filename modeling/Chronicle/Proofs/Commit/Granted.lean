import Chronicle.Proofs.Commit.Applied
import Chronicle.Proofs.Storage.Granted

/-!
A commit that is granted.

Where the journal and what it protects are kept in one directory with room for them, a commit that has no
spool lines is carried out: the checkpoint and the list of unpublished bundles are replaced, the journal has
come and gone, and only entries of this directory have changed. If the checkpoint cannot be printed, the
commit stops behind its journal.
-/

namespace Chronicle.Commit

open Disk Storage

/-- The names of the files that a commit replaces. -/
def recordNames : List Bytes :=
  [utf8 "commit-journal.json", utf8 "tail-state.json", utf8 "unpublished.json"]

/-- A journal, and what it protects, in one directory. -/
def Journal.below (directory : Path) : Journal where
  path := directory.join (utf8 "commit-journal.json")
  checkpoint := directory.join (utf8 "tail-state.json")
  unpublished := directory.join (utf8 "unpublished.json")

/-- The disk after a commit: checkpoint and list have what was pending, there is no journal, and other than in
the directory of these files nothing has changed. -/
structure Settled (pending : Pending) (made : Disk) (base : Key) (after : Disk) : Prop where
  checkpoint : after.find? (base ++ [utf8 "tail-state.json"]) = some (.file pending.checkpointText)
  unpublished : after.find? (base ++ [utf8 "unpublished.json"]) = some (.file pending.unpublishedText)
  no_journal : after.find? (base ++ [utf8 "commit-journal.json"]) = none
  outside : ∀ key, (∀ name, key ≠ base ++ [name]) → after.find? key = made.find? key

/-- The disk after a commit whose checkpoint cannot be printed: its journal is there, checkpoint and list are as
they were, and other than in the directory of these files nothing has changed. -/
structure Halted (pending : Pending) (made : Disk) (base : Key) (after : Disk) : Prop where
  journal : after.find? (base ++ [utf8 "commit-journal.json"]) = some (.file (Journal.textOf pending))
  checkpoint : after.find? (base ++ [utf8 "tail-state.json"]) = made.find? (base ++ [utf8 "tail-state.json"])
  unpublished : after.find? (base ++ [utf8 "unpublished.json"]) =
    made.find? (base ++ [utf8 "unpublished.json"])
  outside : ∀ key, (∀ name, key ≠ base ++ [name]) → after.find? key = made.find? key

variable {host : Host} {made : Disk} {directory : Path} {base : Key} {pending : Pending}

lemma steps_of_no_appends (h : pending.appends = []) :
    pending.steps =
      [.saveCheckpoint pending.checkpoint, .saveUnpublished pending.unpublished, .removeJournal] := by
  rw [Pending.steps, h]
  rfl

lemma runOn_removeJournal_of_room (room : Room host host.disk directory base recordNames) {content : Bytes}
    (hfile : host.disk.find? (base ++ [utf8 "commit-journal.json"]) = some (.file content)) :
    (Journal.below directory).removeJournal.runOn host =
      (.ok (), { host with disk := host.disk.erase (base ++ [utf8 "commit-journal.json"]) }) := by
  have hfits : Fits directory (utf8 "commit-journal.json") := room.fits _ (by decide)
  have hleads : host.disk.Leads host.here false (directory.join (utf8 "commit-journal.json"))
      (base ++ [utf8 "commit-journal.json"]) := room.opens.leads hfits fun hfollow => nomatch hfollow
  have hplain : Plain (lastName (directory.join (utf8 "commit-journal.json"))) := by
    rw [lastName_join hfits.is_name hfits.no_null]
    exact hfits.plain
  have hremove : host.disk.remove host.here (directory.join (utf8 "commit-journal.json")) = _ :=
    remove_eq hleads hfile hplain
  rw [Journal.removeJournal, Program.runOn_request_bind, Host.answer, Journal.below]
  dsimp only
  rw [hremove]
  rfl

lemma apply_of_no_appends (hnone : pending.appends = []) (spool : Spool.Store) :
    (Journal.below directory).apply spool pending =
      Tail.saveOffsets (directory.join (utf8 "tail-state.json")) pending.checkpoint >>= fun _ =>
        writeAtomically (directory.join (utf8 "unpublished.json")) pending.unpublishedText >>= fun _ =>
          (Journal.below directory).removeJournal >>= fun _ =>
            Program.done (directory.join (utf8 "tail-state.json")) := by
  simp only [Journal.apply, steps_of_no_appends hnone, Journal.runSteps, Journal.runStep, bind_assoc,
    Program.pure_eq, Program.done_bind]
  rfl

/-- **A commit without spool lines** is carried out where there is room for its files. -/
theorem runOn_commit_of_room (room : Room host made directory base recordNames)
    (hnone : pending.appends = []) (printable : Tail.Printable pending.checkpoint) (spool : Spool.Store) :
    ∃ disk, Settled pending made base disk ∧ disk.Opens host.here directory base ∧
      ((Journal.below directory).commit spool pending).runOn host =
        (.ok (directory.join (utf8 "tail-state.json")),
          { host with disk, drawn := host.drawn + 3 }) := by
  have hjournal : utf8 "commit-journal.json" ∈ recordNames := by decide
  have hcheckpoint : utf8 "tail-state.json" ∈ recordNames := by decide
  have hunpublished : utf8 "unpublished.json" ∈ recordNames := by decide
  -- Each of the three writes leaves room for the next one.
  obtain ⟨disk₁, digits₁, hwrote₁, room₁, hrun₁⟩ :=
    room.runOn_writeAtomically hjournal (Journal.textOf pending)
  obtain ⟨disk₂, digits₂, hwrote₂, room₂, hrun₂⟩ :=
    room₁.runOn_writeAtomically hcheckpoint pending.checkpointText
  obtain ⟨disk₃, digits₃, hwrote₃, room₃, hrun₃⟩ :=
    room₂.runOn_writeAtomically hunpublished pending.unpublishedText
  have hfile : disk₃.find? (base ++ [utf8 "commit-journal.json"]) =
      some (.file (Journal.textOf pending)) := by
    rw [hwrote₃.beside (by decide) (by decide), hwrote₂.beside (by decide) (by decide), hwrote₁, if_pos rfl]
  have hremove := runOn_removeJournal_of_room room₃ hfile
  have hroot : base ++ [utf8 "commit-journal.json"] ≠ [] := by simp
  refine ⟨disk₃.erase (base ++ [utf8 "commit-journal.json"]), ⟨?_, ?_, ?_, fun key hkey => ?_⟩, ?_, ?_⟩
  · rw [find?_erase _ hroot, if_neg (by simp; decide), hwrote₃.beside (by decide) (by decide), hwrote₂,
      if_pos rfl]
  · rw [find?_erase _ hroot, if_neg (by simp; decide), hwrote₃, if_pos rfl]
  · rw [find?_erase _ hroot, if_pos rfl]
  · rw [find?_erase _ hroot, if_neg (hkey _).symm, hwrote₃.outside hkey, hwrote₂.outside hkey,
      hwrote₁.outside hkey]
  · exact (room₃.free _ hjournal).kept_erase.opens room₃.opens
  · have hsave : Tail.saveOffsets (directory.join (utf8 "tail-state.json")) pending.checkpoint =
        writeAtomically _ pending.checkpointText := Tail.saveOffsets_of_printable printable _
    rw [Journal.commit, Program.runOn_bind]
    have hpath : (Journal.below directory).path = directory.join (utf8 "commit-journal.json") := rfl
    rw [hpath, hrun₁]
    dsimp only
    rw [apply_of_no_appends hnone, hsave, Program.runOn_bind, hrun₂]
    dsimp only
    rw [Program.runOn_bind, hrun₃]
    dsimp only
    rw [Program.runOn_bind, hremove]
    rfl

/-- **A commit without spool lines whose checkpoint cannot be printed** stops behind its journal. -/
theorem runOn_commit_of_not_printable (room : Room host made directory base recordNames)
    (hnone : pending.appends = []) (hnot : ¬ Tail.Printable pending.checkpoint) (spool : Spool.Store) :
    ∃ disk, Halted pending made base disk ∧ disk.Opens host.here directory base ∧
      ((Journal.below directory).commit spool pending).runOn host =
        (.error (.crashed Tail.brokenText), { host with disk, drawn := host.drawn + 1 }) := by
  have hjournal : utf8 "commit-journal.json" ∈ recordNames := by decide
  obtain ⟨disk, digits, hwrote, room', hrun⟩ :=
    room.runOn_writeAtomically hjournal (Journal.textOf pending)
  refine ⟨disk, ⟨?_, ?_, ?_, fun key hkey => hwrote.outside hkey⟩, room'.opens, ?_⟩
  · rw [hwrote, if_pos rfl]
  · exact hwrote.beside (by decide) (by decide)
  · exact hwrote.beside (by decide) (by decide)
  · rw [Journal.commit, Program.runOn_bind]
    have hpath : (Journal.below directory).path = directory.join (utf8 "commit-journal.json") := rfl
    rw [hpath, hrun]
    dsimp only
    rw [apply_of_no_appends hnone, Tail.saveOffsets_of_not_printable hnot]
    rfl

end Chronicle.Commit
