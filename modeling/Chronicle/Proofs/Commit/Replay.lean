import Chronicle.Proofs.Commit.WriteAhead

/-!
Carrying out a commit again.

A commit that was cut off is carried out again from its first step. That takes no account of how far it
had come, and need not: the spools are cut back to the sizes that they had when the commit began, and the
files that are saved are replaced as a whole. A checkpoint that cannot be printed stops every attempt at the
same step, behind the spools and in front of the removal of the journal.
-/

namespace Chronicle.Commit

open Disk Storage

/-- A commit has stopped at a checkpoint that cannot be printed: its spools have their new lines, and its
journal is still there. -/
structure Stuck (journal : Journal) (spool : Spool.Store) (pending : Pending)
    (before after : Host) : Prop where
  unprintable : ¬ Tail.Printable pending.checkpoint
  spools : ∀ append ∈ pending.appends,
    append.Done (spool.content before append.bundleId) (spool.content after append.bundleId)
  journal : after.disk.content? after.here journal.path = some (Journal.textOf pending)

variable {journal : Journal} {spool : Spool.Store} {pending : Pending}
  {host written stopped resumed after once : Host} {key : Key} {path : Path}

lemma fits_of_size {append : Append}
    (reachable : spool.Reachable host.disk host.here append.bundleId)
    (hsize : (spool.size append.bundleId).runOn host = (.ok append.baseSize, host)) :
    append.Fits spool host := by
  obtain ⟨hfile, hlength⟩ := Spool.Store.size_eq_length hsize
  refine ⟨hfile, Nat.le_of_eq ?_⟩
  rw [hlength, Spool.Store.content_eq reachable]

/-- Two commits that have both been carried out cannot be told apart under their paths. -/
lemma Carried.same (h : Carried journal spool pending host after)
    (h' : Carried journal spool pending host once) :
    (∀ append ∈ pending.appends,
        spool.content after append.bundleId = spool.content once append.bundleId) ∧
      after.disk.content? after.here journal.checkpoint =
        once.disk.content? once.here journal.checkpoint ∧
      after.disk.content? after.here journal.unpublished =
        once.disk.content? once.here journal.unpublished := by
  refine ⟨fun append happend => ?_, ?_, ?_⟩
  · rw [(h.spools append happend).2, (h'.spools append happend).2]
  · rw [h.checkpoint, h'.checkpoint]
  · rw [h.unpublished, h'.unpublished]

/-- What is left when the checkpoint cannot be printed. -/
theorem stuck_of_changed (apart : Apart journal spool pending.bundleIds host.disk host.here)
    (reachable : ∀ append ∈ pending.appends, spool.Reachable host.disk host.here append.bundleId)
    (saved : Saved journal journal.path (Journal.textOf pending) key host written)
    (halfway : Halfway journal spool pending written resumed)
    (unprintable : ¬ Tail.Printable pending.checkpoint)
    (changed : SpoolsChanged spool pending.appends Append.Done resumed after) :
    Stuck journal spool pending host after := by
  have apart' : Apart journal spool pending.bundleIds resumed.disk resumed.here :=
    (apart.moved saved.moves).moved halfway.within
  refine ⟨unprintable, fun append happend => ?_, ?_⟩
  · have hdone := (halfway.spools append happend).done (changed.bytes append happend)
    rw [(spools_of_saved apart saved happend).1] at hdone
    rw [Spool.Store.content_eq (reachable append happend),
      Spool.Store.content_eq (changed.reachable append happend)]
    exact hdone
  · rcases halfway.journal with hjournal | finished
    · exact (changed.has_journal apart' hjournal).content?_eq
    · exact absurd finished.printable unprintable

/-- **A replay never duplicates or loses lines.** Take a commit whose base sizes are the sizes of its spools
when it begins, whose paths are not links to one another, and whose spools are found under their paths if
they have bytes. Its journal is written, and the rest is cut off anywhere. If the steps are then carried out
again on the disk that is left, by a host whose temporary names are not in use, they fail because of the
system, or stop at a checkpoint that cannot be printed, with every new line in its spool once; otherwise the
commit has been carried out, once, as if it had not been cut off. -/
theorem apply_again (journal : Journal) (spool : Spool.Store) (pending : Pending)
    {host written stopped resumed : Host} {path : Path}
    (apart : Apart journal spool pending.bundleIds host.disk host.here)
    (fresh : Fresh journal spool pending.bundleIds 3 host)
    (reachable : ∀ append ∈ pending.appends, spool.Reachable host.disk host.here append.bundleId)
    (sizes : ∀ append ∈ pending.appends,
      (spool.size append.bundleId).runOn host = (.ok append.baseSize, host))
    (hwritten : (writeAtomically journal.path (Journal.textOf pending)).runOn host =
      (.ok path, written))
    (hstopped : (journal.apply spool pending).Stops written stopped)
    (hdisk : resumed.disk = stopped.disk) (hhere : resumed.here = stopped.here)
    (fresh' : Fresh journal spool pending.bundleIds 2 resumed) :
    match (journal.apply spool pending).runOn resumed with
    | (.error failure, left) =>
      (∃ problem, failure = .reported problem ∧ problem.category = .io) ∨
        (failure = .crashed Tail.brokenText ∧ Stuck journal spool pending host left)
    | (.ok _, after) =>
      Carried journal spool pending host after ∧
        ∀ path once, (journal.apply spool pending).runOn written = (.ok path, once) →
          (∀ append ∈ pending.appends,
              spool.content after append.bundleId = spool.content once append.bundleId) ∧
            after.disk.content? after.here journal.checkpoint =
              once.disk.content? once.here journal.checkpoint ∧
            after.disk.content? after.here journal.unpublished =
              once.disk.content? once.here journal.unpublished := by
  obtain ⟨key, saved, freshWritten⟩ := saved_of_runOn apart fresh hwritten
  have begun := begun_of_saved apart saved
  have reachable' : ∀ append ∈ pending.appends,
      spool.Reachable written.disk written.here append.bundleId :=
    fun append happend => (spools_of_saved apart saved happend).2 (reachable append happend)
  have halfway : Halfway journal spool pending written resumed := by
    have hleft := halfway_of_stops begun freshWritten reachable' hstopped
    exact hleft.congr hdisk hhere
  rcases hrun : (journal.apply spool pending).runOn resumed with ⟨failure | path', after⟩
  · have hfits : ∀ append ∈ pending.appends, append.Fits spool written := fun append happend => by
      have fits := fits_of_size (reachable append happend) (sizes append happend)
      refine ⟨fits.file, ?_⟩
      rw [(spools_of_saved apart saved happend).1]
      exact fits.size_le
    rcases failure_of_runOn begun halfway fresh' hfits hrun with hio | ⟨hcrash, unprintable, hchanged⟩
    · exact Or.inl hio
    · exact Or.inr ⟨hcrash, stuck_of_changed apart reachable saved halfway unprintable hchanged⟩
  · have hcarried : Carried journal spool pending host after :=
      carried_of_finished apart reachable saved (finished_of_runOn begun halfway fresh' hrun)
    refine ⟨hcarried, fun path once honce => hcarried.same ?_⟩
    exact carried_of_finished apart reachable saved
      (finished_of_runOn begun (begun.halfway reachable') freshWritten honce)

/-- The journal of the example is written. -/
def exampleWritten : Host :=
  ((writeAtomically exampleJournal.path (Journal.textOf examplePending)).runOn exampleHost).2

/-- The second spool has five bytes of its first line when the commit is cut off. -/
theorem apply_again_tornLine :
    ∃ stopped, (exampleJournal.apply exampleStore examplePending).Stops exampleWritten stopped ∧
      exampleStore.content stopped (utf8 "b") = exampleEvent.line.take 5 ∧
      ∃ path after, (exampleJournal.apply exampleStore examplePending).runOn
          { stopped with drawn := 4096 } = (.ok path, after) ∧
        Carried exampleJournal exampleStore examplePending exampleHost after := by
  have hcut : (exampleJournal.apply exampleStore examplePending).Stops exampleWritten _ :=
    .later (.later (.later (.later (.later (.later (.torn (.append (List.take_prefix 5 _))))))))
  obtain ⟨stopped, hstopped, hcontent, fresh', hdone⟩ : ∃ stopped,
      (exampleJournal.apply exampleStore examplePending).Stops exampleWritten stopped ∧
      exampleStore.content stopped (utf8 "b") = exampleEvent.line.take 5 ∧
      Fresh exampleJournal exampleStore examplePending.bundleIds 2 { stopped with drawn := 4096 } ∧
      ((exampleJournal.apply exampleStore examplePending).runOn { stopped with drawn := 4096 }).1 =
        .ok ⟨utf8 "c"⟩ :=
    ⟨_, hcut, by decide +kernel, by decide +kernel, by decide +kernel⟩
  have hwritten : (writeAtomically exampleJournal.path (Journal.textOf examplePending)).runOn
      exampleHost = (.ok ⟨utf8 "j"⟩, exampleWritten) := Prod.ext (by decide +kernel) rfl
  have hdisk : ({ stopped with drawn := 4096 } : Host).disk = stopped.disk := rfl
  have hagain := apply_again exampleJournal exampleStore examplePending (by decide +kernel)
    (by decide +kernel) (by decide +kernel) (by decide +kernel) hwritten hstopped hdisk rfl fresh'
  refine ⟨stopped, hstopped, hcontent, ?_⟩
  rcases hrun : (exampleJournal.apply exampleStore examplePending).runOn
    { stopped with drawn := 4096 } with ⟨failure | path, after⟩
  · rw [hrun] at hdone
    cases hdone
  · rw [hrun] at hagain
    exact ⟨path, after, rfl, hagain.1⟩

/-- Behind a missing directory, a commit that is carried out again cuts lines that it had kept before. -/
theorem apply_again_drops_hidden_lines :
    ∃ written once twice,
      (writeAtomically exampleJournal.path (Journal.textOf hiddenPending)).runOn exampleHost =
          (.ok exampleJournal.path, written) ∧
        (exampleJournal.apply hiddenStore hiddenPending).runOn written =
          (.ok exampleJournal.checkpoint, once) ∧
        (exampleJournal.apply hiddenStore hiddenPending).runOn once =
          (.ok exampleJournal.checkpoint, twice) ∧
        hiddenStore.content once (utf8 "a") = utf8 "old\n" ++ exampleEvent.line ∧
        hiddenStore.content twice (utf8 "a") = exampleEvent.line := by
  refine ⟨_, _, _, Prod.ext ?_ rfl, Prod.ext ?_ rfl, Prod.ext ?_ rfl, ?_, ?_⟩
  all_goals decide +kernel

end Chronicle.Commit
