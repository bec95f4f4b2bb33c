import Chronicle.Proofs.Commit.Interrupted
import Chronicle.Proofs.Tail.Lines

/-!
What a commit promises to those who find its files by their paths.

A commit that succeeds has cut and extended every spool, saved the checkpoint and the list, and left no
journal. A commit that fails has either left its journal, from which it can be finished, or changed nothing.
-/

namespace Chronicle.Commit

open Disk Storage

/-- A commit has been carried out, as its files show it under their paths. -/
structure Carried (journal : Journal) (spool : Spool.Store) (pending : Pending)
    (before after : Host) : Prop where
  spools : ∀ append ∈ pending.appends,
    append.baseSize ≤ (spool.content before append.bundleId).length ∧
      spool.content after append.bundleId =
        (spool.content before append.bundleId).take append.baseSize ++
          Tail.terminated (append.events.map fun event => event.document.compact)
  checkpoint : after.disk.content? after.here journal.checkpoint = some pending.checkpointText
  unpublished : after.disk.content? after.here journal.unpublished = some pending.unpublishedText
  no_journal : ∀ place entry,
    after.disk.resolve after.here false journal.path ≠ .ok (.present place entry)
  others : ∀ key entry, key ∉ places journal spool pending.bundleIds before.disk before.here →
    before.disk.find? key = some entry → after.disk.find? key = some entry

variable {journal : Journal} {spool : Spool.Store} {pending : Pending}
  {host written after : Host} {key : Key}

lemma lines_eq (events : List Spool.Event) :
    Spool.lines events = Tail.terminated (events.map fun event => event.document.compact) := by
  rw [Spool.lines, Tail.terminated, List.flatMap_map]
  rfl

lemma saved_of_runOn {path : Path}
    (apart : Apart journal spool pending.bundleIds host.disk host.here)
    (fresh : Fresh journal spool pending.bundleIds 3 host)
    (hrun : (writeAtomically journal.path (Journal.textOf pending)).runOn host = (.ok path, written)) :
    ∃ key, Saved journal journal.path (Journal.textOf pending) key host written ∧
      Fresh journal spool pending.bundleIds 2 written := by
  rcases runOn_save apart fresh journal.path_mem (Journal.textOf pending) with
    ⟨problem, disk, drawn, -, -, hfail⟩ | ⟨disk, key, saved, hdone⟩
  · rw [hfail] at hrun
    cases hrun
  · rw [hdone] at hrun
    cases hrun
    refine ⟨key, saved, fresh.moved apart saved.moves (fun other hother => ?_) rfl⟩
    exact hother ▸ record_mem_places (mem_recordKeys journal.path_mem saved.aim_eq)

lemma begun_of_saved (apart : Apart journal spool pending.bundleIds host.disk host.here)
    (saved : Saved journal journal.path (Journal.textOf pending) key host written) :
    Begun journal spool pending written :=
  ⟨apart.moved saved.moves, key, saved.leads, saved.find?_eq⟩

lemma spools_of_saved (apart : Apart journal spool pending.bundleIds host.disk host.here) {data : Bytes}
    (saved : Saved journal journal.path data key host written) {append : Append}
    (happend : append ∈ pending.appends) :
    spool.bytes written.disk written.here append.bundleId =
        spool.bytes host.disk host.here append.bundleId ∧
      (spool.Reachable host.disk host.here append.bundleId →
        spool.Reachable written.disk written.here append.bundleId) := by
  refine spools_of_moves apart saved.moves happend ?_
  rintro place hplace rfl
  exact apart.spool_not_record (mem_spoolKeys (List.mem_map_of_mem happend) hplace)
    (mem_recordKeys journal.path_mem saved.aim_eq)

theorem carried_of_finished (apart : Apart journal spool pending.bundleIds host.disk host.here)
    (reachable : ∀ append ∈ pending.appends, spool.Reachable host.disk host.here append.bundleId)
    (saved : Saved journal journal.path (Journal.textOf pending) key host written)
    (finished : Finished journal spool pending written after) :
    Carried journal spool pending host after := by
  have begun := begun_of_saved apart saved
  have haim : after.disk.aim after.here false journal.path = some key := by
    rw [finished.within.here_eq, begun.apart.record_aim finished.within.kept journal.path_mem,
      saved.leads.aim_eq]
  refine ⟨fun append happend => ?_, finished.checkpoint.content?_eq,
    finished.unpublished.content?_eq, fun place entry hplace => ?_, fun other entry hother hentry => ?_⟩
  · obtain ⟨hsize, hnew⟩ := finished.spools append happend
    rw [(spools_of_saved apart saved happend).1] at hsize hnew
    rw [Spool.Store.content_eq (reachable append happend),
      Spool.Store.content_eq (finished.reachable append happend), hnew, lines_eq]
    exact ⟨hsize, rfl⟩
  · -- The journal is gone, so its path leads to nothing.
    have hthere : after.disk.standingEntry place = some entry := resolve_isOn hplace
    have hgoal := goal_of_resolve hplace
    rw [aim_eq_some.mp haim, Option.some.injEq] at hgoal
    have hplace' : place = .inside key := hgoal.symm
    rw [hplace'] at hthere
    have hnone := finished.journal key saved.leads.aim_eq
    rw [standingEntry, hnone] at hthere
    cases hthere
  · have hne : ¬ key = other := by
      rintro rfl
      exact hother (record_mem_places (mem_recordKeys journal.path_mem saved.aim_eq))
    have hwritten := (saved.moves.others other hne).find?_eq hentry
    refine (finished.within.others other ?_).find?_eq hwritten
    rintro (hplace | hnone)
    · rw [saved.moves.here_eq, apart.places_eq saved.moves.kept] at hplace
      exact hother hplace
    · rw [hwritten] at hnone
      cases hnone

/-- **The journal is written ahead.** Take any disk on which the paths of a commit are not links to one
another and the names of its temporary files are not in use. If the commit fails, its journal is under its
path, or nothing has changed but for new directories. If it succeeds, and every spool that had bytes was
found under its path, the commit has been carried out. -/
theorem commit_write_ahead (journal : Journal) (spool : Spool.Store) (pending : Pending) (host : Host)
    (apart : Apart journal spool pending.bundleIds host.disk host.here)
    (fresh : Fresh journal spool pending.bundleIds 3 host) :
    match (journal.commit spool pending).runOn host with
    | (.error _, after) =>
      after.disk.content? after.here journal.path = some (Journal.textOf pending) ∨
        Furnished host.disk after.disk
    | (.ok _, after) =>
      (∀ append ∈ pending.appends, spool.Reachable host.disk host.here append.bundleId) →
        Carried journal spool pending host after := by
  rw [Journal.commit, Program.runOn_bind]
  rcases hwrite : (writeAtomically journal.path (Journal.textOf pending)).runOn host with
    ⟨failure | path, written⟩
  · rcases runOn_save apart fresh journal.path_mem (Journal.textOf pending) with
      ⟨problem, disk, drawn, -, hfurnished, hfail⟩ | ⟨disk, key, -, hdone⟩
    · rw [hfail] at hwrite
      cases hwrite
      exact Or.inr hfurnished
    · rw [hdone] at hwrite
      cases hwrite
  obtain ⟨key, saved, fresh'⟩ := saved_of_runOn apart fresh hwrite
  have begun := begun_of_saved apart saved
  have hend := Program.stops_runOn (journal.apply spool pending) written
  dsimp only
  rcases hrun : (journal.apply spool pending).runOn written with ⟨failure | path', after⟩
  · rw [hrun] at hend
    left
    -- A run that fails has been cut off before the journal was removed.
    rcases stops_apply hend with hworks | hdone
    · exact (works_leave_journal begun fresh' hworks).2.content?_eq
    · rw [hrun] at hdone
      cases hdone
  · intro reachable
    have halfway := begun.halfway fun append happend =>
      (spools_of_saved apart saved happend).2 (reachable append happend)
    exact carried_of_finished apart reachable saved (finished_of_runOn begun halfway fresh' hrun)

/-! ### An example -/

def exampleJournal : Journal where
  path := ⟨utf8 "j"⟩
  checkpoint := ⟨utf8 "c"⟩
  unpublished := ⟨utf8 "u"⟩

def exampleStore : Spool.Store := ⟨⟨utf8 "s"⟩⟩

def exampleEvent : Spool.Event where
  ts := utf8 "t"
  kind := utf8 "k"

/-- One line for a spool that has a line, and two lines for a spool that is missing. -/
def examplePending : Pending where
  appends := [⟨utf8 "a", 4, [exampleEvent]⟩, ⟨utf8 "b", 0, [exampleEvent, exampleEvent]⟩]
  unpublished := .ofList [utf8 "a", utf8 "b"]

def exampleHost : Host where
  disk := ⟨[([utf8 "s"], .directory), ([utf8 "s", utf8 "a.jsonl"], .file (utf8 "old\n"))]⟩

theorem commit_write_ahead_twoSpools :
    Apart exampleJournal exampleStore examplePending.bundleIds exampleHost.disk exampleHost.here ∧
    Fresh exampleJournal exampleStore examplePending.bundleIds 3 exampleHost ∧
    ∃ path after, (exampleJournal.commit exampleStore examplePending).runOn exampleHost =
        (.ok path, after) ∧
      Carried exampleJournal exampleStore examplePending exampleHost after := by
  have apart : Apart exampleJournal exampleStore examplePending.bundleIds exampleHost.disk
      exampleHost.here := by decide +kernel
  have fresh : Fresh exampleJournal exampleStore examplePending.bundleIds 3 exampleHost := by
    decide +kernel
  have reachable : ∀ append ∈ examplePending.appends,
      exampleStore.Reachable exampleHost.disk exampleHost.here append.bundleId := by
    decide +kernel
  have hdone : ((exampleJournal.commit exampleStore examplePending).runOn exampleHost).1 =
      .ok ⟨utf8 "c"⟩ := by decide +kernel
  have hresult := commit_write_ahead exampleJournal exampleStore examplePending exampleHost apart fresh
  rcases hrun : (exampleJournal.commit exampleStore examplePending).runOn exampleHost with
    ⟨failure | path, after⟩
  · rw [hrun] at hdone
    cases hdone
  · rw [hrun] at hresult
    exact ⟨apart, fresh, path, after, rfl, hresult reachable⟩

/-! ### Spools that are not found

A path that goes into a missing directory and up again leads to nothing, so the spool counts as empty and
is not cut. Adding lines makes the directory, and then the path leads to the spool that was there.
-/

def hiddenStore : Spool.Store := ⟨⟨utf8 "x/../s"⟩⟩

/-- One line for a spool that counts as empty. -/
def hiddenPending : Pending where
  appends := [⟨utf8 "a", 0, [exampleEvent]⟩]

/-- A commit behind a missing directory succeeds and has not cut the spool to its base size. -/
theorem commit_keeps_hidden_lines :
    Apart exampleJournal hiddenStore hiddenPending.bundleIds exampleHost.disk exampleHost.here ∧
    Fresh exampleJournal hiddenStore hiddenPending.bundleIds 3 exampleHost ∧
    ∃ path after,
      (exampleJournal.commit hiddenStore hiddenPending).runOn exampleHost = (.ok path, after) ∧
        hiddenStore.content exampleHost (utf8 "a") = [] ∧
        hiddenStore.content after (utf8 "a") = utf8 "old\n" ++ exampleEvent.line := by
  refine ⟨by decide +kernel, by decide +kernel, ⟨utf8 "c"⟩, _, Prod.ext ?_ rfl, ?_, ?_⟩
  all_goals decide +kernel

end Chronicle.Commit
