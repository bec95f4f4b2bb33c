import Chronicle.Proofs.Tail.Changed
import Chronicle.Recorder.Cycle

/-!
The visits that a cycle makes to logs.

Whoever gathers visits the logs below the session directories one after the other. A visit counts a log,
reads its file at most once, and reports at most one failure, which begins with the path of the log. While
nobody meddles the disk is the same for all visits, so there is one visit for each session directory that a
log is below.
-/

namespace Chronicle.Recorder

open Program Tail

/-- A log that is visited, whether its file is read, and the failure that is reported. -/
structure Visit where
  log : Sighting
  read : Bool
  failure : Option Bytes
  deriving DecidableEq, Repr

/-- The report that a log cannot be read now. -/
def failureText (saved : Offsets) (log : Path) (problem : Problem) : Bytes :=
  log.text ++ utf8 " @ " ++ Bytes.decimal ((saved.find? log.text).getD 0) ++ utf8 ": " ++ problem.message

/-- What visits add to what has been gathered, and the files that are read. -/
structure Visited (saved : Offsets) (before after : Gathered) (reads : List Path)
    (visits : List Visit) : Prop where
  scanned : after.report.filesScanned = before.report.filesScanned + visits.length
  failures : after.report.readFailures = before.report.readFailures ++ visits.filterMap (·.failure)
  named : ∀ visit ∈ visits, ∀ failure, visit.failure = some failure →
    ∃ problem, failure = failureText saved visit.log.path problem
  reads_eq : reads = (visits.filter (·.read)).map (·.log.path)

variable {recorder : Recorder} {redaction : Redaction} {saved : Offsets} {before between after : Gathered}
  {host stopped : Host} {reads reads' : List Path} {visits visits' : List Visit} {log : Path}

lemma Visited.refl (saved : Offsets) (gathered : Gathered) : Visited saved gathered gathered [] [] where
  scanned := rfl
  failures := (List.append_nil _).symm
  named _ hvisit := nomatch hvisit
  reads_eq := rfl

lemma Visited.trans (h : Visited saved before between reads visits)
    (h' : Visited saved between after reads' visits') :
    Visited saved before after (reads ++ reads') (visits ++ visits') where
  scanned := by rw [h'.scanned, h.scanned, List.length_append, Nat.add_assoc]
  failures := by rw [h'.failures, h.failures, List.filterMap_append, List.append_assoc]
  named visit hvisit := (List.mem_append.mp hvisit).elim (h.named visit) (h'.named visit)
  reads_eq := by rw [h.reads_eq, h'.reads_eq, List.filter_append, List.map_append]

lemma Visited.single {visit : Visit}
    (hscanned : after.report.filesScanned = before.report.filesScanned + 1)
    (hfailures : after.report.readFailures = before.report.readFailures ++ visit.failure.toList)
    (hnamed : ∀ failure, visit.failure = some failure →
      ∃ problem, failure = failureText saved visit.log.path problem)
    (hreads : reads = if visit.read then [visit.log.path] else []) :
    Visited saved before after reads [visit] where
  scanned := hscanned
  failures := by
    rw [hfailures]
    cases hfailure : visit.failure <;> simp [hfailure]
  named other hother := by
    rw [List.mem_singleton.mp hother]
    exact hnamed
  reads_eq := by
    rw [hreads]
    cases hread : visit.read <;> simp [hread]

/-! ### One log -/

lemma runOn_fileSize (path : Path) (host : Host) :
    ∃ size, (Storage.fileSize path).runOn host = (.ok size, host) := by
  rw [Storage.fileSize, runOn_request_bind]
  split
  · exact ⟨_, rfl⟩
  · split <;> exact ⟨_, rfl⟩

lemma fileSize_only (path : Path) : (Storage.fileSize path).Only Request.Idle := by
  refine (fileSize_asks path).mono ?_
  rintro request rfl
  exact ⟨trivial, rfl⟩

lemma readNewLines_only (log : Path) (offset : Nat) : (readNewLines log offset).Only Request.Harmless := by
  refine (readNewLines_asks log offset).mono ?_
  rintro request (rfl | rfl) <;> trivial

lemma reads_readNewLines (log : Path) (offset : Nat) (host : Host) :
    ∃ read : Bool, (readNewLines log offset).reads host = if read then [log] else [] := by
  obtain ⟨size, hsize⟩ := runOn_fileSize log host
  rw [readNewLines, reads_bind hsize, (fileSize_only log).reads_eq_nil, List.nil_append]
  cases size with
  | error reason => exact ⟨false, rfl⟩
  | ok size =>
    dsimp only
    split
    · exact ⟨false, rfl⟩
    · have hread : (Program.request (.read log)).runOn host =
          (.ok (host.answer (.read log)).1, host) := rfl
      rw [reads_bind hread]
      refine ⟨true, ?_⟩
      cases (host.answer (.read log)).1 with
      | content content =>
        dsimp only
        split <;> rfl
      | _ => rfl

lemma takeLines_only (redaction : Redaction) (lines : List Bytes) (gathered : Gathered) :
    (takeLines redaction lines gathered).Only Request.Idle := by
  induction lines generalizing gathered with
  | nil => exact .done _
  | cons line rest ih =>
    refine .bind (.request ⟨trivial, rfl⟩) fun now => ?_
    split <;> exact ih _

lemma runOn_takeLines {lines : List Bytes}
    (h : (takeLines redaction lines before).runOn host = (.ok after, stopped)) :
    after.report.filesScanned = before.report.filesScanned ∧
      after.report.readFailures = before.report.readFailures := by
  induction lines generalizing before host with
  | nil =>
    cases h
    exact ⟨rfl, rfl⟩
  | cons line rest ih =>
    obtain ⟨now, between, -, hrest⟩ := runOn_bind_ok h
    split at hrest
    · have htaken := ih hrest
      exact htaken
    · have htaken := ih hrest
      exact htaken

lemma gatherLog_only (redaction : Redaction) (saved : Offsets) (log : Path) (gathered : Gathered) :
    (gatherLog redaction saved log gathered).Only Request.Harmless := by
  refine .bind (readNewLines_only log _).attempt fun result => ?_
  cases result with
  | error problem => exact .bind (.request trivial) fun _ => .done _
  | ok batch =>
    refine .bind (takeLines_only _ _ _).harmless fun taken => ?_
    split
    · exact .bind (.request trivial) fun _ => .done _
    · exact .done _

/-- **A log is gathered** in one visit. -/
theorem runOn_gatherLog (sighting : Sighting)
    (h : (gatherLog redaction saved sighting.path before).runOn host = (.ok after, stopped)) :
    ∃ visit : Visit, visit.log = sighting ∧
      Visited saved before after ((gatherLog redaction saved sighting.path before).reads host) [visit] := by
  obtain ⟨read, hread⟩ := reads_readNewLines sighting.path ((saved.find? sighting.path.text).getD 0) host
  obtain ⟨result, between, hattempt, hrest⟩ := runOn_bind_ok h
  unfold gatherLog
  dsimp only
  rw [reads_bind hattempt, reads_attempt, hread]
  cases result with
  | error problem =>
    obtain ⟨_, _, _, hdone⟩ := runOn_bind_ok hrest
    cases hdone
    refine ⟨⟨sighting, read, some (failureText saved sighting.path problem)⟩, rfl, .single rfl rfl ?_ ?_⟩
    · rintro failure ⟨⟩
      exact ⟨problem, rfl⟩
    · exact List.append_nil _
  | ok batch =>
    obtain ⟨taken, _, htaken, hlast⟩ := runOn_bind_ok hrest
    -- Taking the lines over reads nothing more.
    have hcounts := runOn_takeLines htaken
    have hafter : taken = after := by
      split at hlast
      · obtain ⟨_, _, _, hdone⟩ := runOn_bind_ok hlast
        cases hdone
        rfl
      · cases hlast
        rfl
    subst hafter
    refine ⟨⟨sighting, read, none⟩, rfl, .single hcounts.1 ?_ (fun _ hnone => nomatch hnone) ?_⟩
    · rw [hcounts.2]
      exact (List.append_nil _).symm
    · refine (congrArg (_ ++ ·) (Only.reads_eq_nil (.bind (takeLines_only _ _ _) fun gathered => ?_) _)).trans
        (List.append_nil _)
      split
      · exact .bind (.request ⟨trivial, rfl⟩) fun _ => .done _
      · exact .done _

/-! ### All logs -/

lemma gatherLogs_only (redaction : Redaction) (saved : Offsets) (logs : List Path) (gathered : Gathered) :
    (gatherLogs redaction saved logs gathered).Only Request.Harmless := by
  induction logs generalizing gathered with
  | nil => exact .done _
  | cons log rest ih => exact .bind (gatherLog_only redaction saved log gathered) ih

lemma runOn_gatherLogs (logs : List Sighting)
    (h : (gatherLogs redaction saved (logs.map (·.path)) before).runOn host = (.ok after, stopped)) :
    ∃ visits : List Visit, visits.map (·.log) = logs ∧
      Visited saved before after
        ((gatherLogs redaction saved (logs.map (·.path)) before).reads host) visits := by
  induction logs generalizing before host with
  | nil =>
    cases h
    exact ⟨[], rfl, .refl saved _⟩
  | cons log rest ih =>
    obtain ⟨taken, middle, hfirst, hrest⟩ := runOn_bind_ok h
    obtain ⟨visit, hvisit, hvisited⟩ := runOn_gatherLog log hfirst
    obtain ⟨visits, hvisits, hvisited'⟩ := ih hrest
    refine ⟨visit :: visits, by rw [List.map_cons, hvisit, hvisits], ?_⟩
    rw [List.map_cons, gatherLogs, reads_bind hfirst]
    exact hvisited.trans hvisited'

/-- **Each session directory's logs are visited**, once for each time that it is configured. -/
theorem runOn_gather {dirs : List Bytes} (hdisk : host.disk.WellFormed) (hhost : host.watches = [])
    (h : (recorder.gather saved dirs before).runOn host = (.ok after, stopped)) :
    ∃ visits : List Visit,
      (visits.map (·.log)).Perm (dirs.flatMap fun dir => host.logsBelow (recorder.config.root.join dir)) ∧
      Visited saved before after ((recorder.gather saved dirs before).reads host) visits := by
  induction dirs generalizing before host with
  | nil =>
    cases h
    exact ⟨[], .refl _, .refl saved _⟩
  | cons dir rest ih =>
    obtain ⟨logs, hlogs, hfound⟩ := runOn_findLogs hdisk (recorder.config.root.join dir)
    obtain ⟨paths, found, hfind, hrest⟩ := runOn_bind_ok h
    rw [hfind, Except.ok.injEq] at hfound
    subst hfound
    obtain ⟨taken, middle, htaken, hlast⟩ := runOn_bind_ok hrest
    obtain ⟨visits, hvisits, hvisited⟩ := runOn_gatherLogs logs htaken
    -- The disk has not changed when the next directory is looked at.
    have hfoundSame : host.Same found := by
      have hafter := (findLogs_only (recorder.config.root.join dir)).harmless.runOn_same hhost
      rwa [hfind] at hafter
    have hsame : host.Same middle := by
      have hafter := (gatherLogs_only recorder.redaction saved (logs.map (·.path)) before).runOn_same
        hfoundSame.watches
      rw [htaken] at hafter
      exact hfoundSame.trans hafter
    obtain ⟨visits', hvisits', hvisited'⟩ := ih (hsame.disk ▸ hdisk) hsame.watches hlast
    simp only [hsame.logsBelow_eq] at hvisits'
    refine ⟨visits ++ visits', ?_, ?_⟩
    · rw [List.map_append, List.flatMap_cons, hvisits]
      exact hlogs.append hvisits'
    · rw [gather, reads_bind hfind, (findLogs_only _).reads_eq_nil, List.nil_append, reads_bind htaken]
      exact hvisited.trans hvisited'

end Chronicle.Recorder
