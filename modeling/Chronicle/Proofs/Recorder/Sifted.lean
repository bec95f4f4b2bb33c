import Chronicle.Proofs.Recorder.Visits

/-!
Gathering from logs that have no line.

Each log that is found is gone through by itself: if it can be read, its offset moves behind its last line
break; if it cannot be read, that is reported and its offset stays as it is. Which logs fail, and how many,
makes no difference to the others.
-/

namespace Chronicle.Recorder

open Program Tail

variable {recorder : Recorder} {looks : Looks} {host between : Host}
  {log : Path} {logs more : List Path} {before middle after : Gathered}

/-- The logs that a cycle finds, in the order in which it reads them. -/
def discovered (recorder : Recorder) (host : Host) : List Path :=
  recorder.config.sessionDirs.flatMap fun dir => host.found (recorder.config.root.join dir)

/-- The report of a log that cannot be read from its start. -/
def failure? (looks : Looks) (host : Host) (log : Path) : Option Bytes :=
  (problem? looks host log).map fun problem =>
    log.text ++ utf8 " @ " ++ Bytes.decimal 0 ++ utf8 ": " ++ problem.message

/-- The offset of a log that has been read. -/
def place? (looks : Looks) (host : Host) (log : Path) : Option Nat :=
  match reading looks host log with
  | .ok batch => some batch.newOffset
  | .error _ => none

/-- A log that cannot be read, or has no line. -/
def Passes (looks : Looks) (host : Host) (log : Path) : Prop :=
  (∃ problem, reading looks host log = .error (.reported problem)) ∨
    ∃ batch, reading looks host log = .ok batch ∧ batch.lines = []

/-- What going through logs adds to what has been gathered, where none of them has a line. -/
structure Sifted (looks : Looks) (host : Host) (logs : List Path) (before after : Gathered) : Prop where
  report_eq : after.report = { before.report with
    filesScanned := before.report.filesScanned + logs.length
    readFailures := before.report.readFailures ++ logs.filterMap (failure? looks host) }
  events_eq : after.events = before.events
  offsets_eq : ∀ log : Path, after.offsets.find? log.text =
    (if log ∈ logs then place? looks host log else none).or (before.offsets.find? log.text)
  ascending : before.offsets.Ascending → after.offsets.Ascending

lemma Sifted.refl (looks : Looks) (host : Host) (gathered : Gathered) :
    Sifted looks host [] gathered gathered where
  report_eq := by simp
  events_eq := rfl
  offsets_eq log := by simp
  ascending := id

lemma Sifted.trans (h : Sifted looks host logs before middle) (h' : Sifted looks host more middle after) :
    Sifted looks host (logs ++ more) before after where
  report_eq := by
    rw [h'.report_eq, h.report_eq, List.length_append, List.filterMap_append]
    simp only [Nat.add_assoc, List.append_assoc]
  events_eq := h'.events_eq.trans h.events_eq
  offsets_eq log := by
    rw [h'.offsets_eq, h.offsets_eq]
    by_cases hlogs : log ∈ logs <;> by_cases hmore : log ∈ more <;>
      cases place? looks host log <;> simp [hlogs, hmore]
  ascending hbefore := h'.ascending (h.ascending hbefore)

/-! ### One log -/

lemma sifted_failed {problem : Problem} (h : reading looks host log = .error (.reported problem))
    (before : Gathered) :
    Sifted looks host [log] before
      { before with
        report := { before.report with
          filesScanned := before.report.filesScanned + 1
          readFailures := before.report.readFailures ++
            [log.text ++ utf8 " @ " ++ Bytes.decimal 0 ++ utf8 ": " ++ problem.message] } } where
  report_eq := by simp [failure?, problem?, h]
  events_eq := rfl
  offsets_eq other := by
    by_cases heq : other = log
    · subst heq
      simp [place?, h]
    · simp [heq]
  ascending := id

lemma sifted_read {batch : Batch} (h : reading looks host log = .ok batch) (before : Gathered) :
    Sifted looks host [log] before
      { before with
        report := { before.report with filesScanned := before.report.filesScanned + 1 }
        offsets := before.offsets.insert log.text batch.newOffset } where
  report_eq := by simp [failure?, problem?, h]
  events_eq := rfl
  offsets_eq other := by
    by_cases heq : other = log
    · subst heq
      simp [place?, h]
    · have hne : log.text ≠ other.text := fun htext => heq (by cases other; cases log; simp_all)
      simp [heq, hne]
  ascending hbefore := hbefore.insert log.text batch.newOffset

/-- **A log is gone through** by itself. -/
theorem runSeeing_gatherLog (redaction : Redaction) (hhost : host.watches = []) (hsame : host.Same between)
    (hpasses : Passes looks host log) (before : Gathered) :
    ∃ after stopped, (gatherLog redaction .empty log before).runSeeing looks between = (.ok after, stopped) ∧
      host.Same stopped ∧ Sifted looks host [log] before after := by
  have hstopped : between.Same ((gatherLog redaction .empty log before).runSeeing looks between).2 :=
    (gatherLog_only redaction .empty log before).runSeeing_same hsame.watches
  rcases hrun : (readNewLines log 0).runSeeing looks between with ⟨result, next⟩
  obtain rfl : result = reading looks host log := by
    rw [← reading_same hhost hsame, reading, hrun]
  have hattempt : (readNewLines log 0).attempt.runSeeing looks between = _ := runSeeing_attempt _ between
  rw [hrun] at hattempt
  suffices h : ∃ after, ((gatherLog redaction .empty log before).runSeeing looks between).1 = .ok after ∧
      Sifted looks host [log] before after by
    obtain ⟨after, hresult, hsifted⟩ := h
    exact ⟨after, _, Prod.ext hresult rfl, hsame.trans hstopped, hsifted⟩
  rcases hpasses with ⟨problem, hproblem⟩ | ⟨batch, hbatch, hlines⟩
  · refine ⟨_, ?_, sifted_failed hproblem before⟩
    rw [hproblem] at hattempt
    change (((readNewLines log 0).attempt >>= _).runSeeing looks between).1 = _
    rw [runSeeing_bind, hattempt]
    rfl
  · refine ⟨_, ?_, sifted_read hbatch before⟩
    rw [hbatch] at hattempt
    change (((readNewLines log 0).attempt >>= _).runSeeing looks between).1 = _
    rw [runSeeing_bind, hattempt]
    dsimp only
    rw [hlines]
    split <;> rfl

/-! ### All logs -/

lemma runSeeing_gatherLogs (redaction : Redaction) (hhost : host.watches = []) (hsame : host.Same between)
    (hpasses : ∀ log ∈ logs, Passes looks host log) (before : Gathered) :
    ∃ after stopped, (gatherLogs redaction .empty logs before).runSeeing looks between = (.ok after, stopped) ∧
      host.Same stopped ∧ Sifted looks host logs before after := by
  induction logs generalizing between before with
  | nil => exact ⟨before, between, rfl, hsame, .refl looks host before⟩
  | cons log rest ih =>
    obtain ⟨middle, next, hfirst, hnext, hsifted⟩ :=
      runSeeing_gatherLog redaction hhost hsame (hpasses log List.mem_cons_self) before
    obtain ⟨after, stopped, hrest, hstopped, hsifted'⟩ :=
      ih hnext (fun other hother => hpasses other (List.mem_cons_of_mem _ hother)) middle
    refine ⟨after, stopped, ?_, hstopped, hsifted.trans hsifted'⟩
    rw [gatherLogs, runSeeing_bind, hfirst]
    exact hrest

/-- **Each directory's logs are gone through**, in the order in which they are found. -/
theorem runSeeing_gather (recorder : Recorder) {dirs : List Bytes} (hhost : host.watches = [])
    (hsame : host.Same between)
    (hdirs : ∀ dir ∈ dirs, looks (recorder.config.root.join dir) = none)
    (hpasses : ∀ dir ∈ dirs, ∀ log ∈ host.found (recorder.config.root.join dir), Passes looks host log)
    (before : Gathered) :
    ∃ after stopped, (recorder.gather .empty dirs before).runSeeing looks between = (.ok after, stopped) ∧
      host.Same stopped ∧
      Sifted looks host (dirs.flatMap fun dir => host.found (recorder.config.root.join dir)) before after := by
  induction dirs generalizing between before with
  | nil => exact ⟨before, between, rfl, hsame, .refl looks host before⟩
  | cons dir rest ih =>
    have hfound : ((findLogs (recorder.config.root.join dir)).runOn between).1 =
        .ok (host.found (recorder.config.root.join dir)) := by
      rw [Host.runOn_findLogs, hsame.found_eq hhost]
    have hseen := runSeeing_findLogs (hdirs dir List.mem_cons_self) between
    have hlooked := (findLogs_only (recorder.config.root.join dir)).harmless.runOn_same hsame.watches
    rcases hfind : (findLogs (recorder.config.root.join dir)).runOn between with ⟨result, looked⟩
    rw [hfind] at hfound hseen hlooked
    obtain rfl : result = .ok (host.found (recorder.config.root.join dir)) := hfound
    obtain ⟨middle, next, hfirst, hnext, hsifted⟩ :=
      runSeeing_gatherLogs recorder.redaction hhost (hsame.trans hlooked)
        (hpasses dir List.mem_cons_self) before
    obtain ⟨after, stopped, hrest, hstopped, hsifted'⟩ :=
      ih hnext (fun other hother => hdirs other (List.mem_cons_of_mem _ hother))
        (fun other hother => hpasses other (List.mem_cons_of_mem _ hother)) middle
    refine ⟨after, stopped, ?_, hstopped, hsifted.trans hsifted'⟩
    rw [gather, runSeeing_bind, hseen]
    dsimp only
    rw [runSeeing_bind, hfirst]
    exact hrest

end Chronicle.Recorder
