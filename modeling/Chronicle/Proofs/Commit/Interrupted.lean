import Chronicle.Proofs.Commit.Applied

/-!
Commits that were cut off.

From the moment at which its journal has been written, a commit is halfway: the journal is there, and each
spool has its bytes or those that it keeps and a part of its new lines; or the journal is gone, and the
commit is finished. Carrying out the steps from any such state finishes the commit, and the result is
described by the state at the beginning only.
-/

namespace Chronicle.Commit

open Disk Storage

/-- The journal of a commit has been written, and nothing has been done yet. -/
structure Begun (journal : Journal) (spool : Spool.Store) (pending : Pending) (start : Host) :
    Prop where
  apart : Apart journal spool pending.bundleIds start.disk start.here
  journal : start.disk.Has start.here journal.path (Journal.textOf pending)

/-- What was on the disk is still there, but for the files that a commit works on. -/
def Within (journal : Journal) (spool : Spool.Store) (pending : Pending) (start host : Host) : Prop :=
  Moves (· ∈ journal.recordKeys start.disk start.here)
    (fun key => key ∈ places journal spool pending.bundleIds start.disk start.here ∨
      start.disk.find? key = none) start host

/-- A commit is finished: the spools have their new lines, the checkpoint and the list are saved, and the
journal is gone. -/
structure Finished (journal : Journal) (spool : Spool.Store) (pending : Pending)
    (start after : Host) : Prop where
  printable : Tail.Printable pending.checkpoint
  within : Within journal spool pending start after
  spools : ∀ append ∈ pending.appends, append.Done
    (spool.bytes start.disk start.here append.bundleId)
    (spool.bytes after.disk after.here append.bundleId)
  reachable : ∀ append ∈ pending.appends, spool.Reachable after.disk after.here append.bundleId
  checkpoint : after.disk.Has after.here journal.checkpoint pending.checkpointText
  unpublished : after.disk.Has after.here journal.unpublished pending.unpublishedText
  journal : ∀ key, start.disk.aim start.here false journal.path = some key →
    after.disk.find? key = none

/-- A commit may have been cut off: the journal is there, or the commit is finished. -/
structure Halfway (journal : Journal) (spool : Spool.Store) (pending : Pending)
    (start host : Host) : Prop where
  within : Within journal spool pending start host
  spools : ∀ append ∈ pending.appends, append.CutOff
    (spool.bytes start.disk start.here append.bundleId)
    (spool.bytes host.disk host.here append.bundleId)
  reachable : ∀ append ∈ pending.appends, spool.Reachable host.disk host.here append.bundleId
  journal : host.disk.Has host.here journal.path (Journal.textOf pending) ∨
    Finished journal spool pending start host

variable {journal : Journal} {spool : Spool.Store} {pending : Pending}
  {start host mid after stopped : Host} {key : Key}

lemma Begun.halfway (h : Begun journal spool pending start)
    (reachable : ∀ append ∈ pending.appends, spool.Reachable start.disk start.here append.bundleId) :
    Halfway journal spool pending start start :=
  ⟨Moves.refl _ _ _, fun _ _ => Or.inl rfl, reachable, Or.inl h.journal⟩

/-- How far a commit has come is a matter of the disk and of the working directory. -/
lemma Halfway.congr (h : Halfway journal spool pending start stopped)
    (hdisk : host.disk = stopped.disk) (hhere : host.here = stopped.here) :
    Halfway journal spool pending start host := by
  obtain ⟨within, spools, reachable, hjournal⟩ := h
  rw [← hdisk, ← hhere] at hjournal
  simp only [← hdisk, ← hhere] at spools reachable
  have within' : Within journal spool pending start host :=
    ⟨hhere.trans within.here_eq, hdisk ▸ within.kept, hdisk ▸ within.others⟩
  refine ⟨within', spools, reachable, hjournal.imp_right fun finished => ?_⟩
  obtain ⟨printable, -, spools', reachable', hcheckpoint, hunpublished, hgone⟩ := finished
  simp only [← hdisk, ← hhere] at spools' reachable' hcheckpoint hunpublished hgone
  exact ⟨printable, within', spools', reachable', hcheckpoint, hunpublished, hgone⟩

/-! ### Finishing a commit -/

lemma Worked.kept (worked : Worked journal spool pending host mid)
    (begun : Begun journal spool pending start) (within : Within journal spool pending start host) :
    mid.here = start.here ∧
      Kept (· ∈ journal.recordKeys start.disk start.here) start.disk mid.disk := by
  have hkept := worked.moves.kept
  rw [within.here_eq, begun.apart.recordKeys_eq within.kept] at hkept
  exact ⟨worked.moves.here_eq.trans within.here_eq, within.kept.trans hkept⟩

lemma Worked.leads_eq (worked : Worked journal spool pending host mid)
    (apart : Apart journal spool pending.bundleIds host.disk host.here) {path : Path}
    {place place' : Key} (hpath : path ∈ journal.records)
    (hleads : host.disk.Leads host.here false path place)
    (hleads' : mid.disk.Leads mid.here false path place') : place' = place := by
  have haims := apart.record_aim worked.moves.kept hpath
  rw [← worked.moves.here_eq, hleads'.aim_eq, worked.moves.here_eq, hleads.aim_eq] at haims
  exact Option.some.inj haims

/-- The last step of a commit changes nothing that was there before but the journal. -/
lemma within_of_removed (begun : Begun journal spool pending start)
    (within : Within journal spool pending start host)
    (worked : Worked journal spool pending host mid)
    (haim : start.disk.aim start.here false journal.path = some key)
    (hremoved : Removed mid.disk key after.disk) (hhere : after.here = mid.here) :
    Within journal spool pending start after := by
  have hjournal : key ∈ journal.recordKeys start.disk start.here :=
    mem_recordKeys (by simp) haim
  obtain ⟨hhere', hkept⟩ := worked.kept begun within
  refine ⟨hhere.trans hhere', hremoved.kept hkept hjournal ?_, fun other hother => ?_⟩
  · obtain ⟨place, hleads, hfile⟩ := begun.journal
    rw [hleads.aim_eq, Option.some.injEq] at haim
    simp [← haim, hfile]
  · rw [not_or] at hother
    obtain ⟨entry, hentry⟩ := Option.ne_none_iff_exists'.mp hother.2
    have hfirst := (within.others other (not_or.mpr hother)).find?_eq hentry
    have hsecond : mid.disk.find? other = some entry := by
      refine (worked.moves.others other ?_).find?_eq hfirst
      rintro ⟨step, hstep, hplace⟩
      have hmem := Step.place_mem (pending.works_of_mem step hstep) hplace
      rw [within.here_eq, begun.apart.places_eq within.kept] at hmem
      exact hother.1 hmem
    have hne : key ≠ other := by
      rintro rfl
      exact hother.1 (record_mem_places hjournal)
    rw [Spared, hremoved other, if_neg hne, hsecond, hentry]
    exact Or.inl rfl

/-- A commit is finished if it is so in terms of places, and the paths led there before from some state
from which on no directory has been lost. -/
lemma finished_of_base {base : Host} (printable : Tail.Printable pending.checkpoint)
    (within : Within journal spool pending start after)
    (hspools : ∀ append ∈ pending.appends, append.Done
      (spool.bytes start.disk start.here append.bundleId)
      (spool.bytes after.disk after.here append.bundleId))
    (hjournal : ∀ key, start.disk.aim start.here false journal.path = some key →
      after.disk.find? key = none)
    (apart : Apart journal spool pending.bundleIds base.disk base.here)
    (hhere : after.here = base.here)
    (hkept : Kept (· ∈ journal.recordKeys base.disk base.here) base.disk after.disk)
    (hbytes : ∀ append ∈ pending.appends, spool.bytes after.disk after.here append.bundleId =
      spool.bytes base.disk base.here append.bundleId)
    (hreachable : ∀ append ∈ pending.appends, spool.Reachable base.disk base.here append.bundleId)
    (hcheckpoint : ∃ key, base.disk.Leads base.here false journal.checkpoint key ∧
      after.disk.find? key = some (.file pending.checkpointText))
    (hunpublished : ∃ key, base.disk.Leads base.here false journal.unpublished key ∧
      after.disk.find? key = some (.file pending.unpublishedText)) :
    Finished journal spool pending start after := by
  refine ⟨printable, within, hspools, fun append happend => ?_, ?_, ?_, hjournal⟩
  · have hid : append.bundleId ∈ pending.bundleIds := List.mem_map_of_mem happend
    rw [hhere]
    refine apart.reachable hkept hid (hreachable append happend) fun key hplace => ?_
    have hplace' : spool.place after.disk base.here append.bundleId = some key := by
      rw [apart.place_eq hkept hid, hplace]
    have hsame := hbytes append happend
    rw [hhere, Spool.Store.bytes_of_place hplace, Spool.Store.bytes_of_place hplace'] at hsame
    rw [hsame]
    exact id
  · obtain ⟨key, hleads, hfile⟩ := hcheckpoint
    rw [hhere]
    exact ⟨key, apart.record_leads hkept (by simp) hleads hfile, hfile⟩
  · obtain ⟨key, hleads, hfile⟩ := hunpublished
    rw [hhere]
    exact ⟨key, apart.record_leads hkept (by simp) hleads hfile, hfile⟩

lemma bytes_of_removed (apart : Apart journal spool pending.bundleIds mid.disk mid.here)
    (haim : mid.disk.aim mid.here false journal.path = some key)
    (hremoved : Removed mid.disk key after.disk) {append : Append} (happend : append ∈ pending.appends)
    (hplace : spool.place after.disk after.here append.bundleId =
      spool.place mid.disk mid.here append.bundleId) :
    spool.bytes after.disk after.here append.bundleId =
      spool.bytes mid.disk mid.here append.bundleId := by
  unfold Spool.Store.bytes
  rw [hplace]
  split
  · next other hother =>
    have hne : key ≠ other := by
      rintro rfl
      exact apart.spool_not_record (mem_spoolKeys (List.mem_map_of_mem happend) hother)
        (mem_recordKeys (by simp) haim)
    refine bytesAt_congr ?_
    rw [hremoved, if_neg hne]
  · rfl

lemma file_of_removed {path : Path} {text : Bytes}
    (hremoved : Removed mid.disk key after.disk)
    (hpath : mid.disk.aim mid.here false path ≠ some key) (h : mid.disk.Has mid.here path text) :
    ∃ place, mid.disk.Leads mid.here false path place ∧
      after.disk.find? place = some (.file text) := by
  obtain ⟨place, hleads, hfile⟩ := h
  have hne : key ≠ place := by
    rintro rfl
    exact hpath hleads.aim_eq
  refine ⟨place, hleads, ?_⟩
  rw [hremoved, if_neg hne, hfile]

lemma Worked.find?_journal (worked : Worked journal spool pending host mid)
    (apart : Apart journal spool pending.bundleIds host.disk host.here)
    (haim : host.disk.aim host.here false journal.path = some key) {entry : Entry}
    (hthere : host.disk.find? key = some entry) : mid.disk.find? key = some entry := by
  refine (worked.moves.others key ?_).find?_eq hthere
  rintro ⟨step, hstep, hplace⟩
  exact Step.place_ne_journal (pending.works_of_mem step hstep) apart haim hplace

/-- When the journal is removed as well, the commit is finished. -/
theorem finished_of_removed (begun : Begun journal spool pending start)
    (halfway : Halfway journal spool pending start host)
    (worked : Worked journal spool pending host mid)
    (haim : start.disk.aim start.here false journal.path = some key)
    (hremoved : Removed mid.disk key after.disk) (hhere : after.here = mid.here) :
    Finished journal spool pending start after := by
  have within := within_of_removed begun halfway.within worked haim hremoved hhere
  have apart : Apart journal spool pending.bundleIds host.disk host.here :=
    begun.apart.moved halfway.within
  have apart' : Apart journal spool pending.bundleIds mid.disk mid.here := apart.moved worked.moves
  have haim' : host.disk.aim host.here false journal.path = some key := by
    rw [halfway.within.here_eq, begun.apart.record_aim halfway.within.kept journal.path_mem, haim]
  have haim'' : mid.disk.aim mid.here false journal.path = some key := by
    rw [worked.moves.here_eq, apart.record_aim worked.moves.kept journal.path_mem, haim']
  have hbytes : ∀ append ∈ pending.appends, spool.bytes after.disk after.here append.bundleId =
      spool.bytes mid.disk mid.here append.bundleId := by
    intro append happend
    have hid : append.bundleId ∈ pending.bundleIds := List.mem_map_of_mem happend
    refine bytes_of_removed apart' haim'' hremoved happend ?_
    rw [within.here_eq, begun.apart.place_eq within.kept hid, worked.moves.here_eq,
      apart.place_eq worked.moves.kept hid, halfway.within.here_eq,
      begun.apart.place_eq halfway.within.kept hid]
  have hspools : ∀ append ∈ pending.appends, append.Done
      (spool.bytes start.disk start.here append.bundleId)
      (spool.bytes after.disk after.here append.bundleId) := by
    intro append happend
    rw [hbytes append happend]
    exact (halfway.spools append happend).done (worked.spools append happend)
  have hjournal : ∀ key, start.disk.aim start.here false journal.path = some key →
      after.disk.find? key = none := by
    intro other hother
    rw [haim, Option.some.injEq] at hother
    rw [hremoved, if_pos hother]
  obtain ⟨checkpoint, hcheckpoint, hcheckpointText⟩ :=
    file_of_removed hremoved (apart'.journal_ne haim'').1 worked.checkpoint
  obtain ⟨unpublished, hunpublished, hunpublishedText⟩ :=
    file_of_removed hremoved (apart'.journal_ne haim'').2 worked.unpublished
  rcases halfway.journal with ⟨place, hleads, hthere⟩ | hfinished
  · -- The journal is a file until it is removed.
    obtain rfl : place = key := Option.some.inj (hleads.aim_eq.symm.trans haim')
    have hfile := worked.find?_journal apart haim' hthere
    refine finished_of_base worked.printable within hspools hjournal apart' hhere
      (hremoved.kept (Kept.refl _ _) (mem_recordKeys journal.path_mem haim'') (by simp [hfile]))
      hbytes worked.reachable ⟨checkpoint, hcheckpoint, hcheckpointText⟩
      ⟨unpublished, hunpublished, hunpublishedText⟩
  · -- The commit had been finished before, and everything that it saves was there.
    obtain ⟨checkpoint', hcheckpoint', -⟩ := hfinished.checkpoint
    obtain ⟨unpublished', hunpublished', -⟩ := hfinished.unpublished
    obtain rfl := worked.leads_eq apart journal.checkpoint_mem hcheckpoint' hcheckpoint
    obtain rfl := worked.leads_eq apart journal.unpublished_mem hunpublished' hunpublished
    refine finished_of_base worked.printable within hspools hjournal apart (hhere.trans worked.moves.here_eq)
      (hremoved.kept worked.moves.kept (mem_recordKeys journal.path_mem haim') ?_)
      (fun append happend => ?_) halfway.reachable ⟨checkpoint, hcheckpoint', hcheckpointText⟩
      ⟨unpublished, hunpublished', hunpublishedText⟩
    · simp [hfinished.journal key haim]
    · rw [(hspools append happend).2, (hfinished.spools append happend).2]

/-! ### Runs -/

lemma apply_eq (journal : Journal) (spool : Spool.Store) (pending : Pending) :
    journal.apply spool pending = journal.runSteps spool pending.works >>= fun _ =>
      journal.removeJournal >>= fun _ => Program.done journal.checkpoint := by
  simp only [Journal.apply, pending.steps_eq, runSteps_append, Journal.runSteps, Journal.runStep,
    bind_assoc, Program.pure_eq, Program.done_bind]

lemma Begun.journal_leads (begun : Begun journal spool pending start)
    (hhere : host.here = start.here)
    (hkept : Kept (· ∈ journal.recordKeys start.disk start.here) start.disk host.disk) :
    ∃ key, start.disk.aim start.here false journal.path = some key ∧
      host.disk.aim host.here false journal.path = some key ∧
      ∀ entry, host.disk.find? key = some entry →
        host.disk.Leads host.here false journal.path key := by
  obtain ⟨key, hleads, -⟩ := begun.journal
  rw [hhere]
  refine ⟨key, hleads.aim_eq, ?_, fun entry hentry => ?_⟩
  · rw [begun.apart.record_aim hkept journal.path_mem, hleads.aim_eq]
  · exact begun.apart.record_leads hkept journal.path_mem hleads hentry

/-- **Carrying out a commit finishes it**, from any state that it can have been left in. -/
theorem finished_of_runOn (begun : Begun journal spool pending start)
    (halfway : Halfway journal spool pending start host)
    (fresh : Fresh journal spool pending.bundleIds 2 host) {path : Path}
    (hrun : (journal.apply spool pending).runOn host = (.ok path, after)) :
    Finished journal spool pending start after := by
  rw [apply_eq] at hrun
  obtain ⟨_, mid, hworks, hlast⟩ := Program.runOn_bind_ok hrun
  obtain ⟨_, hremove⟩ := Program.runOn_bind_done hlast
  have worked := worked_of_runOn (begun.apart.moved halfway.within) fresh halfway.reachable hworks
  obtain ⟨hhere, hkept⟩ := worked.kept begun halfway.within
  obtain ⟨key, haim, haim', hleads⟩ := begun.journal_leads hhere hkept
  rcases runOn_removeJournal haim' hleads with ⟨problem, -, hfail⟩ | ⟨disk, hremoved, hdone⟩
  · rw [hfail] at hremove
    cases hremove
  · rw [hdone] at hremove
    cases hremove
    exact finished_of_removed begun halfway worked haim hremoved rfl

/-- **Carrying out a commit fails** because of the system, if every spool had the bytes that it is to keep
when the commit began; or the spools have their new lines, and the checkpoint cannot be printed. -/
theorem failure_of_runOn (begun : Begun journal spool pending start)
    (halfway : Halfway journal spool pending start host)
    (fresh : Fresh journal spool pending.bundleIds 2 host)
    (fits : ∀ append ∈ pending.appends, append.Fits spool start) {failure : Failure}
    (hrun : (journal.apply spool pending).runOn host = (.error failure, after)) :
    (∃ problem, failure = .reported problem ∧ problem.category = .io) ∨
      (failure = .crashed Tail.brokenText ∧ ¬ Tail.Printable pending.checkpoint ∧
        SpoolsChanged spool pending.appends Append.Done host after) := by
  rw [apply_eq] at hrun
  have apart : Apart journal spool pending.bundleIds host.disk host.here :=
    begun.apart.moved halfway.within
  rcases Program.runOn_bind_error hrun with hworks | ⟨_, mid, hworks, hlast⟩
  · rcases works_failure apart fresh halfway.reachable hworks with
      ⟨problem, rfl, hio | ⟨append, happend, hnot⟩⟩ | hunprintable
    · exact Or.inl ⟨problem, rfl, hio⟩
    · refine absurd ⟨(fits append happend).file, ?_⟩ hnot
      exact (halfway.spools append happend).size_le (fits append happend).size_le
    · exact Or.inr hunprintable
  · have worked := worked_of_runOn apart fresh halfway.reachable hworks
    obtain ⟨hhere, hkept⟩ := worked.kept begun halfway.within
    obtain ⟨key, -, haim, hleads⟩ := begun.journal_leads hhere hkept
    rw [Program.runOn_bind] at hlast
    rcases runOn_removeJournal haim hleads with ⟨problem, hio, hfail⟩ | ⟨disk, -, hdone⟩
    · rw [hfail] at hlast
      cases hlast
      exact Or.inl ⟨problem, rfl, hio⟩
    · rw [hdone] at hlast
      cases hlast

/-! ### Interruptions -/

/-- A commit is cut off before its journal is removed, or it is carried out. -/
lemma stops_apply (h : (journal.apply spool pending).Stops host stopped) :
    (journal.runSteps spool pending.works).Stops host stopped ∨
      (journal.apply spool pending).runOn host = (.ok journal.checkpoint, stopped) := by
  rw [apply_eq] at h ⊢
  rcases h.bind with hworks | ⟨_, mid, hworks, hlast⟩
  · exact Or.inl hworks
  rcases stops_removeJournal hlast.of_bind_done with hsame | hremove
  · left
    have hend := Program.stops_runOn (journal.runSteps spool pending.works) host
    rwa [hworks, ← hsame] at hend
  · right
    rw [Program.runOn_bind, hworks]
    dsimp only
    rw [Program.runOn_bind, hremove]
    rfl

/-- **Until its last step a commit leaves its journal alone**, wherever it is cut off, and everything else
that was on the disk but the files of the commit. -/
theorem works_leave_journal (begun : Begun journal spool pending start)
    (fresh : Fresh journal spool pending.bundleIds 2 start)
    (h : (journal.runSteps spool pending.works).Stops start stopped) :
    Within journal spool pending start stopped ∧
      stopped.disk.Has stopped.here journal.path (Journal.textOf pending) := by
  have hmoves := stops_runSteps pending.works begun.apart (by rwa [pending.drawsOf_works])
    pending.works_of_mem h
  have within : Within journal spool pending start stopped := by
    refine hmoves.mono ?_
    rintro key (⟨step, hstep, hplace⟩ | ⟨-, hnone⟩)
    · exact Or.inl (Step.place_mem (pending.works_of_mem step hstep) hplace)
    · exact Or.inr hnone
  obtain ⟨key, hleads, hfile⟩ := begun.journal
  have hthere : stopped.disk.find? key = some (.file (Journal.textOf pending)) := by
    refine (hmoves.others key ?_).find?_eq hfile
    rintro (⟨step, hstep, hplace⟩ | ⟨hspare, -⟩)
    · exact Step.place_ne_journal (pending.works_of_mem step hstep) begun.apart hleads.aim_eq hplace
    · exact hspare (record_mem_places (mem_recordKeys journal.path_mem hleads.aim_eq))
  refine ⟨within, key, ?_, hthere⟩
  rw [hmoves.here_eq]
  exact begun.apart.record_leads hmoves.kept journal.path_mem hleads hthere

/-- Wherever the steps before the last one are cut off, each spool has its bytes, or those that it keeps
and a part of its new lines. -/
lemma spools_of_stops (begun : Begun journal spool pending start)
    (fresh : Fresh journal spool pending.bundleIds 2 start)
    (reachable : ∀ append ∈ pending.appends, spool.Reachable start.disk start.here append.bundleId)
    (h : (journal.runSteps spool pending.works).Stops start stopped) :
    ∀ append ∈ pending.appends,
      append.CutOff (spool.bytes start.disk start.here append.bundleId)
          (spool.bytes stopped.disk stopped.here append.bundleId) ∧
        spool.Reachable stopped.disk stopped.here append.bundleId := by
  intro append happend
  rw [Pending.works, runSteps_append] at h
  rcases h.bind with hfirst | ⟨_, between, hfirst, hlast⟩
  · have hplaces := (List.nodup_append.mp begun.apart.distinct).2.1
    have hchanged := stops_appendSteps hplaces reachable hfirst
    exact ⟨hchanged.bytes append happend, hchanged.reachable append happend⟩
  · obtain ⟨hchanged, apart, fresh'⟩ := appended_of_runOn begun.apart fresh reachable hfirst
    have hsaved := stops_runSteps pending.saves apart fresh'
      (fun step hstep => pending.works_of_mem step (List.mem_append_right _ hstep)) hlast
    obtain ⟨hbytes, hreachable⟩ := spools_of_moves apart hsaved happend fun key hplace => by
      rintro (⟨step, hstep, hstep'⟩ | ⟨hspare, -⟩)
      · exact place_not_save apart happend hplace hstep hstep'
      · exact hspare (spool_mem_places (mem_spoolKeys (List.mem_map_of_mem happend) hplace))
    rw [hbytes]
    exact ⟨(hchanged.bytes append happend).cutOff,
      hreachable (hchanged.reachable append happend)⟩

/-- **Wherever a commit is cut off, it is halfway.** -/
theorem halfway_of_stops (begun : Begun journal spool pending start)
    (fresh : Fresh journal spool pending.bundleIds 2 start)
    (reachable : ∀ append ∈ pending.appends, spool.Reachable start.disk start.here append.bundleId)
    (h : (journal.apply spool pending).Stops start stopped) :
    Halfway journal spool pending start stopped := by
  rcases stops_apply h with hworks | hrun
  · obtain ⟨within, hjournal⟩ := works_leave_journal begun fresh hworks
    have hspools := spools_of_stops begun fresh reachable hworks
    exact ⟨within, fun append happend => (hspools append happend).1,
      fun append happend => (hspools append happend).2, Or.inl hjournal⟩
  · have finished := finished_of_runOn begun (begun.halfway reachable) fresh hrun
    exact ⟨finished.within, fun append happend => (finished.spools append happend).cutOff,
      finished.reachable, Or.inr finished⟩

end Chronicle.Commit
