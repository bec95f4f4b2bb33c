import Chronicle.Proofs.Commit.Spools

/-!
What a commit leaves behind, whether it is carried out or cut off.

Before the journal is removed everything else is done, and done at places of its own. So at any moment the
journal is there, with every spool as it was or with the bytes that it keeps and a part of its new lines; or
the journal is gone, and the commit is carried out. From either state the steps lead to the same end, since
a spool is cut back before it is extended.
-/

namespace Chronicle.Commit

open Disk Storage

namespace Pending

/-- The bundles whose spools get new lines. -/
def bundleIds (pending : Pending) : List Bytes := pending.appends.map (·.bundleId)

/-- What the checkpoint will contain. -/
def checkpointText (pending : Pending) : Bytes := Tail.offsetsText pending.checkpoint

/-- What the list of unpublished bundles will contain. -/
def unpublishedText (pending : Pending) : Bytes :=
  (Json.array (pending.unpublished.map .string)).indented ++ [Bytes.newline]

/-- The steps between the appends and the removal of the journal. -/
def saves (pending : Pending) : List Step :=
  [.saveCheckpoint pending.checkpoint, .saveUnpublished pending.unpublished]

/-- The steps before the journal is removed. -/
def works (pending : Pending) : List Step := appendSteps pending.appends ++ pending.saves

lemma steps_eq (pending : Pending) : pending.steps = pending.works ++ [.removeJournal] := by
  rw [steps, works, saves, List.append_assoc]
  rfl

lemma works_of_mem_appendSteps {appends : List Append} {step : Step}
    (h : step ∈ appendSteps appends) : step.Works (appends.map (·.bundleId)) := by
  obtain ⟨append, happend, hstep⟩ := List.mem_flatMap.mp h
  have hid := List.mem_map_of_mem (f := (·.bundleId)) happend
  rcases List.mem_pair.mp hstep with rfl | rfl <;> exact hid

lemma works_of_mem (pending : Pending) : ∀ step ∈ pending.works, step.Works pending.bundleIds := by
  intro step hstep
  rcases List.mem_append.mp hstep with happend | hsave
  · exact works_of_mem_appendSteps happend
  · rcases List.mem_pair.mp hsave with rfl | rfl <;> exact trivial

lemma drawsOf_appendSteps (appends : List Append) : drawsOf (appendSteps appends) = 0 := by
  induction appends with
  | nil => rfl
  | cons append rest ih =>
    rw [appendSteps_cons, drawsOf_append, ih]
    rfl

lemma drawsOf_works (pending : Pending) : drawsOf pending.works = 2 := by
  rw [works, drawsOf_append, drawsOf_appendSteps, Nat.zero_add]
  rfl

end Pending

variable {journal : Journal} {spool : Spool.Store} {pending : Pending} {bundleIds : List Bytes}
  {start host after stopped : Host} {key : Key}

/-! ### Everything but the removal -/

lemma saves_eq (journal : Journal) (spool : Spool.Store) (pending : Pending) :
    journal.runSteps spool pending.saves =
      Tail.saveOffsets journal.checkpoint pending.checkpoint >>= fun _ =>
        writeAtomically journal.unpublished pending.unpublishedText >>= fun _ => Program.done () := by
  simp only [Pending.saves, Journal.runSteps, Journal.runStep, bind_assoc, Program.pure_eq,
    Program.done_bind]
  rfl

lemma runOn_saves_of_not_printable (h : ¬ Tail.Printable pending.checkpoint) (journal : Journal)
    (spool : Spool.Store) (host : Host) :
    (journal.runSteps spool pending.saves).runOn host = (.error (.crashed Tail.brokenText), host) := by
  rw [saves_eq, Tail.saveOffsets_of_not_printable h]
  rfl

/-- **Saving the checkpoint and the list** fails because of the system, or both are there. -/
theorem runOn_saves (apart : Apart journal spool bundleIds host.disk host.here)
    (fresh : Fresh journal spool bundleIds 2 host) (printable : Tail.Printable pending.checkpoint) :
    (∃ problem after, (journal.runSteps spool pending.saves).runOn host =
      (.error (.reported problem), after) ∧ problem.category = .io) ∨
    ∃ after, (journal.runSteps spool pending.saves).runOn host = (.ok (), after) ∧
      after.disk.Has after.here journal.checkpoint pending.checkpointText ∧
      after.disk.Has after.here journal.unpublished pending.unpublishedText := by
  have hsave : Tail.saveOffsets journal.checkpoint pending.checkpoint =
      writeAtomically journal.checkpoint pending.checkpointText := Tail.saveOffsets_of_printable printable _
  rw [saves_eq, hsave, Program.runOn_bind]
  rcases runOn_save apart fresh journal.checkpoint_mem pending.checkpointText with
    ⟨problem, disk, drawn, hio, -, hrun⟩ | ⟨disk, key, hsaved, hrun⟩
  · exact Or.inl ⟨problem, _, by rw [hrun], hio⟩
  rw [hrun]
  dsimp only
  have apart' := apart.moved hsaved.moves
  have fresh' : Fresh journal spool bundleIds 1 { host with disk, drawn := host.drawn + 1 } := by
    refine fresh.moved apart hsaved.moves (fun other hother => ?_) rfl
    exact hother ▸ record_mem_places (mem_recordKeys journal.checkpoint_mem hsaved.aim_eq)
  rw [Program.runOn_bind]
  rcases runOn_save apart' fresh' journal.unpublished_mem pending.unpublishedText with
    ⟨problem, disk', drawn, hio, -, hrun'⟩ | ⟨disk', key', hsaved', hrun'⟩
  · exact Or.inl ⟨problem, _, by rw [hrun'], hio⟩
  rw [hrun']
  refine Or.inr ⟨_, rfl, ⟨key, ?_⟩, key', hsaved'.leads, hsaved'.find?_eq⟩
  -- The list is not at the place of the checkpoint.
  have hne : key' ≠ key := by
    rintro rfl
    exact apart'.checkpoint_ne hsaved.leads.aim_eq hsaved'.aim_eq
  have hthere := (hsaved'.moves.others key hne).find?_eq hsaved.find?_eq
  exact ⟨apart'.record_leads hsaved'.moves.kept journal.checkpoint_mem hsaved.leads hthere, hthere⟩

/-- The state of a commit that has only its journal to remove. -/
structure Worked (journal : Journal) (spool : Spool.Store) (pending : Pending)
    (before after : Host) : Prop where
  printable : Tail.Printable pending.checkpoint
  moves : Moves (· ∈ journal.recordKeys before.disk before.here)
    (fun key => ∃ step ∈ pending.works, step.place journal spool before.disk before.here = some key)
    before after
  spools : ∀ append ∈ pending.appends, append.Done
    (spool.bytes before.disk before.here append.bundleId)
    (spool.bytes after.disk after.here append.bundleId)
  reachable : ∀ append ∈ pending.appends, spool.Reachable after.disk after.here append.bundleId
  checkpoint : after.disk.Has after.here journal.checkpoint pending.checkpointText
  unpublished : after.disk.Has after.here journal.unpublished pending.unpublishedText

lemma place_not_save (apart : Apart journal spool pending.bundleIds host.disk host.here)
    {append : Append} (happend : append ∈ pending.appends)
    (hplace : spool.place host.disk host.here append.bundleId = some key) {step : Step}
    (hstep : step ∈ pending.saves) : step.place journal spool host.disk host.here ≠ some key := by
  have hspool := mem_spoolKeys (List.mem_map_of_mem (f := (·.bundleId)) happend) hplace
  have hnot := apart.spool_not_record hspool
  rcases List.mem_pair.mp hstep with rfl | rfl
  · exact fun haim => hnot (mem_recordKeys (by simp) haim)
  · exact fun haim => hnot (mem_recordKeys (by simp) haim)

lemma spools_of_moves {touched : Key → Prop}
    (apart : Apart journal spool pending.bundleIds host.disk host.here)
    (moves : Moves (· ∈ journal.recordKeys host.disk host.here) touched host after)
    {append : Append} (happend : append ∈ pending.appends)
    (hother : ∀ key, spool.place host.disk host.here append.bundleId = some key → ¬ touched key) :
    spool.bytes after.disk after.here append.bundleId =
        spool.bytes host.disk host.here append.bundleId ∧
      (spool.Reachable host.disk host.here append.bundleId →
        spool.Reachable after.disk after.here append.bundleId) := by
  have hid : append.bundleId ∈ pending.bundleIds := List.mem_map_of_mem happend
  have hsame : ∀ key, spool.place host.disk host.here append.bundleId = some key →
      after.disk.bytesAt key = host.disk.bytesAt key :=
    fun key hplace => (moves.others key (hother key hplace)).bytesAt_eq
  rw [moves.here_eq]
  refine ⟨apart.bytes_eq moves.kept hid hsame, fun hreachable => ?_⟩
  refine apart.reachable moves.kept hid hreachable fun key hplace => ?_
  rw [hsame key hplace]
  exact id

lemma SpoolsChanged.has_journal {text : Bytes}
    (h : SpoolsChanged spool pending.appends Append.Done host after)
    (apart : Apart journal spool pending.bundleIds host.disk host.here)
    (hjournal : host.disk.Has host.here journal.path text) :
    after.disk.Has after.here journal.path text := by
  obtain ⟨key, hleads, hfile⟩ := hjournal
  have hmoves := h.moves (· ∈ journal.recordKeys host.disk host.here)
  have hthere : after.disk.find? key = some (.file text) := by
    refine (hmoves.others key fun hspool => ?_).find?_eq hfile
    exact apart.spool_not_record hspool (mem_recordKeys journal.path_mem hleads.aim_eq)
  rw [hmoves.here_eq]
  exact ⟨key, apart.record_leads hmoves.kept journal.path_mem hleads hthere, hthere⟩

/-- When the appends are done, the rest of the commit can go on. -/
lemma appended_of_runOn (apart : Apart journal spool pending.bundleIds host.disk host.here)
    (fresh : Fresh journal spool pending.bundleIds 2 host)
    (reachable : ∀ append ∈ pending.appends, spool.Reachable host.disk host.here append.bundleId)
    (hrun : (journal.runSteps spool (appendSteps pending.appends)).runOn host = (.ok (), after)) :
    SpoolsChanged spool pending.appends Append.Done host after ∧
      Apart journal spool pending.bundleIds after.disk after.here ∧
      Fresh journal spool pending.bundleIds 2 after := by
  have hplaces := (List.nodup_append.mp apart.distinct).2.1
  rcases runOn_appendSteps journal hplaces reachable with
    ⟨problem, between, hfail, -⟩ | ⟨disk, hdone, hchanged⟩
  · rw [hfail] at hrun
    cases hrun
  · rw [hdone] at hrun
    cases hrun
    have hmoves := hchanged.moves (· ∈ journal.recordKeys host.disk host.here)
    exact ⟨hchanged, apart.moved hmoves,
      fresh.moved apart hmoves (fun key hkey => spool_mem_places hkey) rfl⟩

/-- **A commit fails before its journal is removed** because of the system, or because a spool does not have
the bytes that it is to keep; or the spools have their new lines, and the checkpoint cannot be printed. -/
theorem works_failure (apart : Apart journal spool pending.bundleIds host.disk host.here)
    (fresh : Fresh journal spool pending.bundleIds 2 host)
    (reachable : ∀ append ∈ pending.appends, spool.Reachable host.disk host.here append.bundleId)
    {failure : Failure}
    (hrun : (journal.runSteps spool pending.works).runOn host = (.error failure, after)) :
    (∃ problem, failure = .reported problem ∧
      (problem.category = .io ∨ ∃ append ∈ pending.appends, ¬ append.Fits spool host)) ∨
    (failure = .crashed Tail.brokenText ∧ ¬ Tail.Printable pending.checkpoint ∧
      SpoolsChanged spool pending.appends Append.Done host after) := by
  rw [Pending.works, runSteps_append] at hrun
  rcases Program.runOn_bind_error hrun with hfirst | ⟨_, between, hfirst, hlast⟩
  · have hplaces := (List.nodup_append.mp apart.distinct).2.1
    rcases runOn_appendSteps journal hplaces reachable with
      ⟨problem, between, hfail, hwhy⟩ | ⟨disk, hdone, -⟩
    · rw [hfail] at hfirst
      cases hfirst
      exact Or.inl ⟨problem, rfl, hwhy⟩
    · rw [hdone] at hfirst
      cases hfirst
  obtain ⟨hchanged, apart', fresh'⟩ := appended_of_runOn apart fresh reachable hfirst
  by_cases printable : Tail.Printable pending.checkpoint
  · rcases runOn_saves apart' fresh' printable with ⟨problem, last, hfail, hio⟩ | ⟨last, hdone, -⟩
    · rw [hfail] at hlast
      cases hlast
      exact Or.inl ⟨problem, rfl, Or.inl hio⟩
    · rw [hdone] at hlast
      cases hlast
  · rw [runOn_saves_of_not_printable printable] at hlast
    cases hlast
    exact Or.inr ⟨rfl, printable, hchanged⟩

/-- **The steps before the removal** do all that the commit is about. -/
theorem worked_of_runOn (apart : Apart journal spool pending.bundleIds host.disk host.here)
    (fresh : Fresh journal spool pending.bundleIds 2 host)
    (reachable : ∀ append ∈ pending.appends, spool.Reachable host.disk host.here append.bundleId)
    (hrun : (journal.runSteps spool pending.works).runOn host = (.ok (), after)) :
    Worked journal spool pending host after := by
  have hmoves := (runOn_runSteps pending.works apart (by rwa [pending.drawsOf_works])
    pending.works_of_mem hrun).1
  rw [Pending.works, runSteps_append] at hrun
  obtain ⟨_, between, hfirst, hlast⟩ := Program.runOn_bind_ok hrun
  obtain ⟨hchanged, apart', fresh'⟩ := appended_of_runOn apart fresh reachable hfirst
  have hsaved := (runOn_runSteps pending.saves apart' fresh'
    (fun step hstep => pending.works_of_mem step (List.mem_append_right _ hstep)) hlast).1
  have hspools : ∀ append ∈ pending.appends, _ := fun append happend =>
    spools_of_moves apart' hsaved happend fun key hplace => by
      rintro ⟨step, hstep, hstep'⟩
      exact place_not_save apart' happend hplace hstep hstep'
  have printable : Tail.Printable pending.checkpoint := by
    by_contra hnot
    rw [runOn_saves_of_not_printable hnot] at hlast
    cases hlast
  rcases runOn_saves apart' fresh' printable with
    ⟨problem, last, hfail, -⟩ | ⟨last, hdone, hcheckpoint, hunpublished⟩
  · rw [hfail] at hlast
    cases hlast
  rw [hdone] at hlast
  cases hlast
  refine ⟨printable, hmoves, fun append happend => ?_, fun append happend => ?_, hcheckpoint, hunpublished⟩
  · rw [(hspools append happend).1]
    exact hchanged.bytes append happend
  · exact (hspools append happend).2 (hchanged.reachable append happend)

end Chronicle.Commit
