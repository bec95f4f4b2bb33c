import Chronicle.Proofs.Disk.Walk
import Chronicle.Proofs.System.Undisturbed
import Chronicle.Tail.Discovery

/-!
Every log below a directory is found once.

A log is told by where it is on the disk, not by its path: there can be many paths to one place. The logs
below a directory are listed in the order of their paths, each of them one time. Two directories of which
none is below the other have no logs in common.
-/

namespace Chronicle

namespace Tail

/-- A log that is found, and the path by which it is. -/
structure Sighting where
  key : Key
  path : Path
  deriving DecidableEq, Repr

end Tail

open Disk Tail

/-- The logs below a place, with their paths from there. -/
def Host.logsUnder (host : Host) (directory : Path) (key : Key) : List Sighting :=
  ((host.disk.below key).filter fun entry =>
    isLog (host.disk.foundBelow host.here directory key entry)).map
      fun entry => ⟨entry.1, pathBelow directory key entry⟩

/-- The logs below the directory where a path leads; nothing is seen where nothing can be opened. -/
def Host.logsBelow (host : Host) (directory : Path) : List Sighting :=
  match host.disk.resolve host.here true directory with
  | .ok (.present (.inside key) .directory) =>
    if host.limits.opening then host.logsUnder directory key else []
  | _ => []

variable {host after : Host} {directory other : Path} {key : Key}

/-! ### Places -/

lemma Host.Same.logsBelow_eq (h : host.Same after) (directory : Path) :
    after.logsBelow directory = host.logsBelow directory := by
  unfold Host.logsBelow Host.logsUnder
  rw [h.disk, h.here, h.limits]

lemma Host.mem_logsBelow {log : Sighting} (h : log ∈ host.logsBelow directory) :
    ∃ key, host.disk.resolve host.here true directory = .ok (.present (.inside key) .directory) ∧
      key <+: log.key := by
  unfold Host.logsBelow at h
  split at h
  · next key hdirectory =>
    split at h
    · obtain ⟨entry, hentry, rfl⟩ := List.mem_map.mp h
      exact ⟨key, hdirectory, (mem_below.mp (List.mem_filter.mp hentry).1).2.1⟩
    · cases h
  · cases h

lemma Host.logsBelow_nodup (h : host.disk.WellFormed) (directory : Path) :
    ((host.logsBelow directory).map (·.key)).Nodup := by
  unfold Host.logsBelow
  split
  · split
    · rw [logsUnder, List.map_map]
      exact h.keys_nodup.sublist ((List.filter_sublist.trans List.filter_sublist).map _)
    · exact List.nodup_nil
  · exact List.nodup_nil

/-- Two paths lead to directories of which none is the other one or below it. -/
def Host.Apart (host : Host) (directory other : Path) : Prop :=
  ∀ key key', host.disk.resolve host.here true directory = .ok (.present (.inside key) .directory) →
    host.disk.resolve host.here true other = .ok (.present (.inside key') .directory) →
    ¬ key <+: key' ∧ ¬ key' <+: key

lemma Host.Apart.disjoint (h : host.Apart directory other) :
    ((host.logsBelow directory).map (·.key)).Disjoint ((host.logsBelow other).map (·.key)) := by
  intro place hfirst hsecond
  obtain ⟨log, hlog, rfl⟩ := List.mem_map.mp hfirst
  obtain ⟨log', hlog', heq⟩ := List.mem_map.mp hsecond
  obtain ⟨key, hleads, habove⟩ := mem_logsBelow hlog
  obtain ⟨key', hleads', habove'⟩ := mem_logsBelow hlog'
  obtain ⟨hnot, hnot'⟩ := h key key' hleads hleads'
  rcases List.prefix_or_prefix_of_prefix habove (heq ▸ habove') with hnested | hnested
  · exact hnot hnested
  · exact hnot' hnested

/-! ### Finding them -/

namespace Tail

lemma runOn_isDirectory (directory : Path) (host : Host) :
    ((Storage.isDirectory directory).runOn host = (.ok false, host) ∧ host.logsBelow directory = []) ∨
      ∃ place, host.disk.resolve host.here true directory = .ok (.present place .directory) ∧
        (Storage.isDirectory directory).runOn host = (.ok true, host) := by
  rw [Storage.isDirectory, Program.runOn_request_bind]
  simp only [Host.answer, status, Host.logsBelow]
  rcases host.disk.resolve host.here true directory with reason | (⟨place, entry⟩ | ⟨key, trailing⟩)
  · exact Or.inl ⟨rfl, rfl⟩
  · cases entry with
    | directory => exact Or.inr ⟨place, rfl, rfl⟩
    | _ => exact Or.inl ⟨rfl, by cases place <;> rfl⟩
  · exact Or.inl ⟨rfl, rfl⟩

lemma logsOf_perm {found : List Found}
    (h : found.Perm ((host.disk.below key).map (host.disk.foundBelow host.here directory key))) :
    (logsOf found).Perm ((host.logsUnder directory key).map (·.path)) := by
  have hpaths := (h.filter isLog).map (·.path)
  rw [List.filter_map, List.map_map] at hpaths
  rw [Host.logsUnder, List.map_map]
  refine (sortBy_perm _ _).trans (hpaths.trans (.of_eq ?_))
  exact List.map_congr_left fun entry _ => found_path _ _ _ _

/-- **The logs below a directory are found**, each of them once. -/
theorem runOn_findLogs (h : host.disk.WellFormed) (directory : Path) :
    ∃ logs : List Sighting, logs.Perm (host.logsBelow directory) ∧
      ((findLogs directory).runOn host).1 = .ok (logs.map (·.path)) := by
  rcases runOn_isDirectory directory host with ⟨hrun, hnone⟩ | ⟨place, hplace, hrun⟩
  · refine ⟨[], by rw [hnone], ?_⟩
    rw [findLogs, Program.runOn_bind, hrun]
    rfl
  rw [findLogs, Program.runOn_bind, hrun]
  dsimp only
  rw [if_pos rfl, Program.runOn_request_bind]
  simp only [Host.answer, Host.logsBelow, hplace]
  by_cases hopening : host.limits.opening = true
  · rw [if_pos hopening]
    cases place with
    | inside key =>
      obtain ⟨found, hfound, hperm⟩ := h.walk_perm hplace
      obtain ⟨logs, heq, hlogs⟩ :=
        (congrFun₂ (List.eq_map_comp_perm Sighting.path) _ _).mpr (logsOf_perm hperm)
      refine ⟨logs, by simpa [hopening] using hlogs, ?_⟩
      rw [hfound, ← heq]
      rfl
    | detached parent =>
      refine ⟨[], by simp, ?_⟩
      simp only [walk, hplace]
      rfl
  · rw [if_neg hopening]
    refine ⟨[], ?_, rfl⟩
    cases place <;> simp [hopening]

lemma findLogs_asks (directory : Path) :
    (findLogs directory).Only fun request =>
      request = .status directory ∨ request = .walk directory ∨
        ∃ level message, request = .log level message := by
  have hlog : ∀ level message, (Program.log level message >>= fun _ => Program.done ([] : List Path)).Only
      fun request => request = .status directory ∨ request = .walk directory ∨
        ∃ level message, request = .log level message :=
    fun level message => .bind (.request (Or.inr (Or.inr ⟨level, message, rfl⟩))) fun _ => .done _
  refine .bind (.bind (.request (Or.inl rfl)) fun status => ?_) fun isDirectory => ?_
  · cases status <;> exact .done _
  · split
    · refine .bind (.request (Or.inr (Or.inl rfl))) fun found => ?_
      cases found with
      | ok found => exact .done _
      | error reason => exact hlog _ _
    · exact hlog _ _

lemma findLogs_only (directory : Path) :
    (findLogs directory).Only Request.Idle := by
  refine (findLogs_asks directory).mono ?_
  rintro request (rfl | rfl | ⟨level, message, rfl⟩) <;> exact ⟨trivial, rfl⟩

end Tail

end Chronicle
