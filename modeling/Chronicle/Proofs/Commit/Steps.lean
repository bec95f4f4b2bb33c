import Chronicle.Proofs.Commit.Places
import Mathlib.Tactic.ByContra

/-!
What the steps of a commit leave alone.

Each step has one place where it writes, and the places of a commit are apart. So a step that is carried
out changes the entry at its own place only. A step that is cut off, or fails, may besides leave a temporary
file behind, at a place where nothing was and no file of the commit is. That holds of a run of steps as it
does of each of them, and the journal is not at the place of any step but the last.
-/

namespace Chronicle.Commit

open Disk Storage

/-- The place where a step writes. -/
def Step.place (journal : Journal) (spool : Spool.Store) (disk : Disk) (here : Standing) :
    Step → Option Key
  | .cutSpool bundleId _ | .extendSpool bundleId _ => spool.place disk here bundleId
  | .saveCheckpoint _ => disk.aim here false journal.checkpoint
  | .saveUnpublished _ => disk.aim here false journal.unpublished
  | .removeJournal => disk.aim here false journal.path

/-- How many temporary names a step draws. -/
def Step.draws : Step → Nat
  | .saveCheckpoint _ | .saveUnpublished _ => 1
  | .cutSpool _ _ | .extendSpool _ _ | .removeJournal => 0

/-- How many temporary names a run of steps draws. -/
def drawsOf : List Step → Nat
  | [] => 0
  | step :: rest => step.draws + drawsOf rest

lemma drawsOf_append (steps more : List Step) :
    drawsOf (steps ++ more) = drawsOf steps + drawsOf more := by
  induction steps with
  | nil => rw [List.nil_append, drawsOf, Nat.zero_add]
  | cons step rest ih => rw [List.cons_append, drawsOf, drawsOf, ih, Nat.add_assoc]

/-- A step on one of some spools, or on what is saved before the journal is removed. -/
def Step.Works (bundleIds : List Bytes) : Step → Prop
  | .cutSpool bundleId _ | .extendSpool bundleId _ => bundleId ∈ bundleIds
  | .saveCheckpoint _ | .saveUnpublished _ => True
  | .removeJournal => False

/-- A place where a write that is cut off may leave a temporary file. -/
def Spare (journal : Journal) (spool : Spool.Store) (bundleIds : List Bytes) (host : Host)
    (key : Key) : Prop :=
  key ∉ places journal spool bundleIds host.disk host.here ∧ host.disk.find? key = none

variable {journal : Journal} {spool : Spool.Store} {bundleIds : List Bytes} {host after stopped : Host}
  {step : Step} {target : Path} {data : Bytes} {key : Key} {count : Nat}

lemma Step.place_mem (h : step.Works bundleIds) {disk : Disk} {here : Standing}
    (hplace : step.place journal spool disk here = some key) :
    key ∈ places journal spool bundleIds disk here := by
  cases step with
  | cutSpool bundleId size => exact spool_mem_places (mem_spoolKeys h hplace)
  | extendSpool bundleId events => exact spool_mem_places (mem_spoolKeys h hplace)
  | saveCheckpoint offsets =>
    exact record_mem_places (mem_recordKeys (by simp) hplace)
  | saveUnpublished names =>
    exact record_mem_places (mem_recordKeys (by simp) hplace)
  | removeJournal => exact absurd h id

lemma Step.place_kept (h : step.Works bundleIds) {disk disk' : Disk} {here : Standing}
    (apart : Apart journal spool bundleIds disk here)
    (hkept : Kept (· ∈ journal.recordKeys disk here) disk disk') :
    step.place journal spool disk' here = step.place journal spool disk here := by
  cases step with
  | cutSpool bundleId size => exact apart.place_eq hkept h
  | extendSpool bundleId events => exact apart.place_eq hkept h
  | saveCheckpoint offsets => exact apart.record_aim hkept (by simp)
  | saveUnpublished names => exact apart.record_aim hkept (by simp)
  | removeJournal => exact absurd h id

lemma Step.place_ne_journal (h : step.Works bundleIds) {disk : Disk} {here : Standing}
    (apart : Apart journal spool bundleIds disk here)
    (haim : disk.aim here false journal.path = some key) :
    step.place journal spool disk here ≠ some key := by
  have hspool : ∀ bundleId ∈ bundleIds, spool.place disk here bundleId ≠ some key :=
    fun bundleId hid hplace => apart.spool_not_record (mem_spoolKeys hid hplace)
      (mem_recordKeys (by simp) haim)
  cases step with
  | cutSpool bundleId size => exact hspool bundleId h
  | extendSpool bundleId events => exact hspool bundleId h
  | saveCheckpoint offsets => exact (apart.journal_ne haim).1
  | saveUnpublished names => exact (apart.journal_ne haim).2
  | removeJournal => exact absurd h id

/-! ### Saving a file -/

/-- A file of the commit has been saved. -/
structure Saved (journal : Journal) (target : Path) (data : Bytes) (key : Key) (host after : Host) :
    Prop where
  aim_eq : host.disk.aim host.here false target = some key
  moves : Moves (· ∈ journal.recordKeys host.disk host.here) (key = ·) host after
  leads : after.disk.Leads after.here false target key
  find?_eq : after.disk.find? key = some (.file data)

/-- **Saving a file** fails, and then there are new directories at most, or replaces that file alone. -/
theorem runOn_save (apart : Apart journal spool bundleIds host.disk host.here)
    (fresh : Fresh journal spool bundleIds (count + 1) host) (htarget : target ∈ journal.records)
    (data : Bytes) :
    (∃ problem disk drawn, problem.category = .io ∧ Furnished host.disk disk ∧
      (writeAtomically target data).runOn host =
        (.error (.reported problem), { host with disk, drawn })) ∨
    ∃ disk key, Saved journal target data key host { host with disk, drawn := host.drawn + 1 } ∧
      (writeAtomically target data).runOn host =
        (.ok target, { host with disk, drawn := host.drawn + 1 }) := by
  rcases runOn_writeAtomically (fresh.readyFor apart htarget) data with
    ⟨fault, disk, drawn, hfurnished, hrun⟩ | ⟨furnished, disk, key, hfurnished, hplaced, hrun⟩
  · exact Or.inl ⟨fault.problem, disk, drawn, rfl, hfurnished, hrun⟩
  · have haim : host.disk.aim host.here false target = some key := by
      have hkept : Kept (fun _ => False) host.disk furnished := hfurnished.kept
      rw [← hkept.aim_eq fun _ _ => not_false]
      exact hplaced.aim_eq
    have hself : disk.find? key = some (.file data) := by rw [hplaced.find?_eq, if_pos rfl]
    have hmoves : Moves (· ∈ journal.recordKeys host.disk host.here) (key = ·) host
        { host with disk, drawn := host.drawn + 1 } := by
      refine ⟨rfl, hfurnished.kept.trans (hplaced.kept (mem_recordKeys htarget haim)), ?_⟩
      intro other hother
      refine (hfurnished other).trans (Or.inl ?_)
      rw [hplaced.find?_eq, if_neg hother]
    exact Or.inr ⟨disk, key, ⟨haim, hmoves, hplaced.leads, hself⟩, hrun⟩

/-- **While a file is saved** it changes, and there can be a temporary file. -/
theorem stops_save (apart : Apart journal spool bundleIds host.disk host.here)
    (fresh : Fresh journal spool bundleIds (count + 1) host) (htarget : target ∈ journal.records)
    (h : (writeAtomically target data).Stops host stopped) :
    Moves (· ∈ journal.recordKeys host.disk host.here)
      (fun key => host.disk.aim host.here false target = some key ∨
        Spare journal spool bundleIds host key) host stopped := by
  obtain ⟨hhere, furnished, hfurnished, hamid⟩ :=
    stops_writeAtomically (fresh.readyFor apart htarget) h
  have haim : ∀ path, furnished.aim host.here false path = host.disk.aim host.here false path := by
    have hkept : Kept (fun _ => False) host.disk furnished := hfurnished.kept
    exact fun path => hkept.aim_eq fun _ _ => not_false
  have hunused := fresh target htarget 0 (Nat.succ_pos count)
  refine ⟨hhere, hfurnished.kept.trans (hamid.kept fun key hkey => ?_), fun key hkey => ?_⟩
  · rw [haim] at hkey
    exact mem_recordKeys htarget hkey
  refine (hfurnished key).trans ?_
  rcases hamid key with hsame | ⟨htemporary, hnone, -⟩ | ⟨haim', -, -⟩
  · exact Or.inl hsame
  · -- The temporary file is at a place where nothing was.
    rw [haim] at htemporary
    have hspare : host.disk.find? key = none := by
      rcases hfurnished key with hsame | ⟨hfree, -⟩
      · rw [← hsame, hnone]
      · exact hfree
    exact absurd (Or.inr ⟨(hunused.free key htemporary).2, hspare⟩) hkey
  · rw [haim] at haim'
    exact absurd (Or.inl haim') hkey

/-- The checkpoint is saved like any file, or its paths cannot be printed, and then nothing happens. -/
lemma stops_saveOffsets {offsets : Tail.Offsets} (h : (Tail.saveOffsets target offsets).Stops host stopped) :
    stopped = host ∨ (writeAtomically target (Tail.offsetsText offsets)).Stops host stopped := by
  by_cases hprintable : Tail.Printable offsets
  · rw [Tail.saveOffsets_of_printable hprintable] at h
    exact Or.inr h
  · rw [Tail.saveOffsets_of_not_printable hprintable] at h
    exact Or.inl h.fail

lemma runOn_saveOffsets {offsets : Tail.Offsets} {path : Path}
    (hrun : (Tail.saveOffsets target offsets).runOn host = (.ok path, after)) :
    Tail.Printable offsets ∧
      (writeAtomically target (Tail.offsetsText offsets)).runOn host = (.ok path, after) := by
  by_cases hprintable : Tail.Printable offsets
  · rw [Tail.saveOffsets_of_printable hprintable] at hrun
    exact ⟨hprintable, hrun⟩
  · rw [Tail.saveOffsets_of_not_printable hprintable] at hrun
    cases hrun

lemma moves_of_save {path : Path} (apart : Apart journal spool bundleIds host.disk host.here)
    (fresh : Fresh journal spool bundleIds 1 host) (htarget : target ∈ journal.records)
    (hrun : (writeAtomically target data).runOn host = (.ok path, after)) :
    Moves (· ∈ journal.recordKeys host.disk host.here)
        (host.disk.aim host.here false target = some ·) host after ∧
      after.drawn = host.drawn + 1 := by
  rcases runOn_save apart fresh htarget data with
    ⟨problem, disk, drawn, -, -, hfail⟩ | ⟨disk, key, hsaved, hdone⟩
  · rw [hfail] at hrun
    cases hrun
  · rw [hdone] at hrun
    cases hrun
    refine ⟨hsaved.moves.mono fun other hother => ?_, rfl⟩
    rw [← hother]
    exact hsaved.aim_eq

/-! ### One step -/

lemma moves_of_confined {bundleId : Bytes}
    (h : after = { host with disk := after.disk } ∧
      spool.Confined host.here bundleId host.disk after.disk) :
    Moves (· ∈ journal.recordKeys host.disk host.here)
        (spool.place host.disk host.here bundleId = some ·) host after ∧
      after.drawn = host.drawn := by
  obtain ⟨hhost, hchanged⟩ := h
  exact ⟨⟨by rw [hhost], hchanged.kept _, hchanged.others⟩, by rw [hhost]⟩

/-- **A step that is cut off** has changed the entry at its place at most. -/
theorem stops_runStep (apart : Apart journal spool bundleIds host.disk host.here)
    (fresh : Fresh journal spool bundleIds step.draws host) (hworks : step.Works bundleIds)
    (h : (journal.runStep spool step).Stops host stopped) :
    Moves (· ∈ journal.recordKeys host.disk host.here)
      (fun key => step.place journal spool host.disk host.here = some key ∨
        Spare journal spool bundleIds host key) host stopped := by
  cases step with
  | cutSpool bundleId size =>
    exact (moves_of_confined (Spool.Store.truncate_confined h.of_bind_done)).1.mono fun _ => Or.inl
  | extendSpool bundleId events =>
    exact (moves_of_confined (Spool.Store.append_confined h.of_bind_done)).1.mono fun _ => Or.inl
  | saveCheckpoint offsets =>
    rcases stops_saveOffsets h.of_bind_done with rfl | hstops
    · exact Moves.refl _ _ _
    · exact stops_save apart fresh (by simp) hstops
  | saveUnpublished names => exact stops_save apart fresh (by simp) h.of_bind_done
  | removeJournal => exact absurd hworks id

/-- **A step that is carried out** has changed the entry at its place. -/
theorem runOn_runStep (apart : Apart journal spool bundleIds host.disk host.here)
    (fresh : Fresh journal spool bundleIds step.draws host) (hworks : step.Works bundleIds)
    (hrun : (journal.runStep spool step).runOn host = (.ok (), after)) :
    Moves (· ∈ journal.recordKeys host.disk host.here)
        (step.place journal spool host.disk host.here = some ·) host after ∧
      after.drawn = host.drawn + step.draws := by
  cases step with
  | cutSpool bundleId size =>
    obtain ⟨path, hcut⟩ := Program.runOn_bind_done hrun
    have hend := Program.stops_runOn (spool.truncate bundleId size) host
    rw [hcut] at hend
    exact moves_of_confined (Spool.Store.truncate_confined hend)
  | extendSpool bundleId events =>
    obtain ⟨path, hextend⟩ := Program.runOn_bind_done hrun
    have hend := Program.stops_runOn (spool.append bundleId events) host
    rw [hextend] at hend
    exact moves_of_confined (Spool.Store.append_confined hend)
  | saveCheckpoint offsets =>
    obtain ⟨path, hwrite⟩ := Program.runOn_bind_done hrun
    exact moves_of_save apart fresh (by simp) (runOn_saveOffsets hwrite).2
  | saveUnpublished names =>
    obtain ⟨path, hwrite⟩ := Program.runOn_bind_done hrun
    exact moves_of_save apart fresh (by simp) hwrite
  | removeJournal => exact absurd hworks id

/-! ### Runs of steps -/

/-- **A run of steps that is carried out** has changed the entries at their places. -/
theorem runOn_runSteps (steps : List Step)
    (apart : Apart journal spool bundleIds host.disk host.here)
    (fresh : Fresh journal spool bundleIds (drawsOf steps) host)
    (hworks : ∀ step ∈ steps, step.Works bundleIds)
    (hrun : (journal.runSteps spool steps).runOn host = (.ok (), after)) :
    Moves (· ∈ journal.recordKeys host.disk host.here)
        (fun key => ∃ step ∈ steps, step.place journal spool host.disk host.here = some key)
        host after ∧
      after.drawn = host.drawn + drawsOf steps := by
  induction steps generalizing host with
  | nil =>
    cases hrun
    exact ⟨Moves.refl _ _ _, rfl⟩
  | cons step rest ih =>
    rw [drawsOf] at fresh ⊢
    have hstep : step.Works bundleIds := hworks step List.mem_cons_self
    have hrest : ∀ step ∈ rest, step.Works bundleIds :=
      fun step hmem => hworks step (List.mem_cons_of_mem _ hmem)
    obtain ⟨_, between, hfirst, hlater⟩ := Program.runOn_bind_ok hrun
    obtain ⟨hmoves, hdrawn⟩ := runOn_runStep apart
      (fun target htarget ahead hahead => fresh target htarget ahead (by omega)) hstep hfirst
    have hkept := hmoves.kept
    have fresh' : Fresh journal spool bundleIds (drawsOf rest) between :=
      fresh.moved apart hmoves (fun key hkey => Step.place_mem hstep hkey) hdrawn
    obtain ⟨hlast, hdrawn'⟩ := ih (apart.moved hmoves) fresh' hrest hlater
    rw [hmoves.here_eq, apart.recordKeys_eq hkept] at hlast
    refine ⟨(hmoves.mono fun key hplace => ?_).trans (hlast.mono ?_), by omega⟩
    · exact ⟨step, List.mem_cons_self, hplace⟩
    · rintro key ⟨later, hlater, hplace⟩
      rw [Step.place_kept (hrest later hlater) apart hkept] at hplace
      exact ⟨later, List.mem_cons_of_mem _ hlater, hplace⟩

/-- **A run of steps that is cut off** has changed the entries at their places at most. -/
theorem stops_runSteps (steps : List Step)
    (apart : Apart journal spool bundleIds host.disk host.here)
    (fresh : Fresh journal spool bundleIds (drawsOf steps) host)
    (hworks : ∀ step ∈ steps, step.Works bundleIds)
    (h : (journal.runSteps spool steps).Stops host stopped) :
    Moves (· ∈ journal.recordKeys host.disk host.here)
      (fun key => (∃ step ∈ steps, step.place journal spool host.disk host.here = some key) ∨
        Spare journal spool bundleIds host key) host stopped := by
  induction steps generalizing host with
  | nil =>
    rw [h.done]
    exact Moves.refl _ _ _
  | cons step rest ih =>
    rw [drawsOf] at fresh
    have hstep : step.Works bundleIds := hworks step List.mem_cons_self
    have hrest : ∀ step ∈ rest, step.Works bundleIds :=
      fun step hmem => hworks step (List.mem_cons_of_mem _ hmem)
    -- The first step is cut off, or it is done and uses up the temporary names that it draws.
    have hfirst : Fresh journal spool bundleIds step.draws host :=
      fun target htarget ahead hahead => fresh target htarget ahead (by omega)
    rcases h.bind with hstop | ⟨_, between, hrun, hlater⟩
    · refine (stops_runStep apart hfirst hstep hstop).mono fun key hkey => ?_
      exact hkey.imp_left fun hplace => ⟨step, List.mem_cons_self, hplace⟩
    · obtain ⟨hmoves, hdrawn⟩ := runOn_runStep apart hfirst hstep hrun
      have hkept := hmoves.kept
      have fresh' : Fresh journal spool bundleIds (drawsOf rest) between :=
        fresh.moved apart hmoves (fun key hkey => Step.place_mem hstep hkey) hdrawn
      have hlast := ih (apart.moved hmoves) fresh' hrest hlater
      rw [hmoves.here_eq, apart.recordKeys_eq hkept] at hlast
      refine ⟨hlast.here_eq.trans hmoves.here_eq, hkept.trans hlast.kept, fun key hkey => ?_⟩
      rw [not_or] at hkey
      have hsame : Spared host.disk between.disk key :=
        hmoves.others key fun hplace => hkey.1 ⟨step, List.mem_cons_self, hplace⟩
      refine hsame.trans (hlast.others key ?_)
      rintro (⟨later, hlater, hplace⟩ | ⟨hother, hnone⟩)
      · rw [Step.place_kept (hrest later hlater) apart hkept] at hplace
        exact hkey.1 ⟨later, List.mem_cons_of_mem _ hlater, hplace⟩
      · rw [hmoves.here_eq, apart.places_eq hkept] at hother
        refine hkey.2 ⟨hother, ?_⟩
        rcases hsame with hsame | ⟨hfree, -⟩
        · rw [← hsame, hnone]
        · exact hfree

/-! ### The last step -/

/-- Nothing is left at a place; the rest of the disk is as before. -/
def Removed (disk : Disk) (key : Key) (after : Disk) : Prop :=
  ∀ other, after.find? other = if key = other then none else disk.find? other

lemma Removed.kept {disk mid after : Disk} {replaced : Key → Prop} (h : Removed mid key after)
    (hkept : Kept replaced disk mid) (hkey : replaced key)
    (hnot : disk.find? key ≠ some .directory) : Kept replaced disk after where
  directory other hother := by
    have hne : key ≠ other := by
      rintro rfl
      exact hnot hother
    rw [h other, if_neg hne]
    exact hkept.directory other hother
  link other target hfree hother := by
    have hne : key ≠ other := by
      rintro rfl
      exact hfree hkey
    rw [h other, if_neg hne]
    exact hkept.link other target hfree hother
  old_link other target hother := by
    rw [h other] at hother
    split at hother
    · cases hother
    · exact hkept.old_link other target hother

/-- **Removing the journal** fails and leaves everything alone, or takes it away if it is there. -/
theorem runOn_removeJournal (haim : host.disk.aim host.here false journal.path = some key)
    (hleads : ∀ entry, host.disk.find? key = some entry →
      host.disk.Leads host.here false journal.path key) :
    (∃ problem, problem.category = .io ∧
      journal.removeJournal.runOn host = (.error (.reported problem), host)) ∨
    ∃ disk, Removed host.disk key disk ∧
      journal.removeJournal.runOn host = (.ok (), { host with disk }) := by
  rw [Journal.removeJournal, Program.runOn_request_bind]
  rcases hremove : host.disk.remove host.here journal.path with reason | disk
  · have hanswer : host.answer (.remove journal.path) = (some reason, host) := by
      simp only [Host.answer, hremove, Host.withDisk]
    rw [hanswer]
    by_cases hnone : reason = .noEntry
    · -- Nothing can be there that is not found.
      subst hnone
      refine Or.inr ⟨host.disk, fun other => ?_, rfl⟩
      split
      · next heq =>
        subst heq
        by_contra hthere
        obtain ⟨entry, hentry⟩ := Option.ne_none_iff_exists'.mp hthere
        exact remove_ne_noEntry (hleads entry hentry) hentry hremove
      · rfl
    · left
      refine ⟨(JournalFault.notRemoved journal.path reason).problem, rfl, ?_⟩
      cases reason with
      | noEntry => exact absurd rfl hnone
      | _ => rfl
  · have hanswer : host.answer (.remove journal.path) = (none, { host with disk }) := by
      simp only [Host.answer, hremove, Host.withDisk]
    rw [hanswer]
    obtain ⟨place, entry, hresolve, hplace, rfl⟩ := remove_cases hremove
    have hkey : place = key := by
      rw [aim_of_present hresolve] at haim
      exact Option.some.inj haim
    subst hkey
    exact Or.inr ⟨_, fun other => find?_erase host.disk hplace other, rfl⟩

/-- The journal is removed by one request: it has not been answered, or the removal is done. -/
lemma stops_removeJournal (h : journal.removeJournal.Stops host stopped) :
    stopped = host ∨ journal.removeJournal.runOn host = (.ok (), stopped) := by
  rw [Journal.removeJournal] at h ⊢
  rcases h.request_bind with hsame | htorn | h
  · exact Or.inl hsame
  · cases htorn
  rcases hremove : host.disk.remove host.here journal.path with reason | disk
  · have hanswer : host.answer (.remove journal.path) = (some reason, host) := by
      simp only [Host.answer, hremove, Host.withDisk]
    rw [hanswer] at h
    left
    split at h
    · exact h.done
    · exact h.done
    · exact h.fail
  · have hanswer : host.answer (.remove journal.path) = (none, { host with disk }) := by
      simp only [Host.answer, hremove, Host.withDisk]
    rw [hanswer] at h
    right
    rw [Program.runOn_request_bind, hanswer, h.done]
    rfl

end Chronicle.Commit
