import Chronicle.Proofs.Recorder.Visits
import Mathlib.Data.List.Dedup

/-!
How often a cycle consumes a log.

A cycle looks up where it left a log in the offsets that were saved before it began, also when it comes upon
the log a second time. So a log is consumed once for each session directory that it is below, and a
configuration with a session directory that is repeated, or below another one, is accepted. Every log is
consumed once where no two session directories have a log in common.
-/

namespace Chronicle.Recorder

open Program Tail

/-- The part of a cycle before logs are gathered. -/
def opening (recorder : Recorder) : Program (Bytes × Offsets × Names) := do
  let cycleId := Ident.short (utf8 "cycle") (← Program.request (.draws 8))
  Program.request (.setContext cycleId)
  recorder.replay
  let saved ← loadOffsets recorder.config.checkpointPath
  let unpublished ← recorder.config.journal.loadUnpublished
  return (cycleId, saved, unpublished)

/-- What a cycle starts to gather with. -/
def Gathered.start (cycleId : Bytes) (saved : Offsets) : Gathered :=
  { report := { cycleId := cycleId }, offsets := saved }

/-- The logs below each of the session directories. -/
def logs (recorder : Recorder) (host : Host) : List Sighting :=
  recorder.config.sessionDirs.flatMap fun dir => host.logsBelow (recorder.config.root.join dir)

/-- The places of logs. -/
def places (logs : List Sighting) : List Key := logs.map (·.key)

variable {recorder : Recorder} {host stopped : Host} {report : Report}

/-! ### After gathering -/

lemma runOn_publishBuilds {builds : List (Bytes × Trace.Built)} {before : Report} {unpublished left : Names}
    (h : (recorder.publishBuilds builds before unpublished).runOn host = (.ok (report, left), stopped)) :
    report.filesScanned = before.filesScanned ∧ report.readFailures = before.readFailures := by
  induction builds generalizing before unpublished host with
  | nil =>
    cases h
    exact ⟨rfl, rfl⟩
  | cons build rest ih =>
    obtain ⟨result, middle, -, hrest⟩ := runOn_bind_ok h
    cases result with
    | error problem =>
      obtain ⟨_, _, -, hlast⟩ := runOn_bind_ok hrest
      have hcounts := ih hlast
      exact hcounts
    | ok published =>
      obtain ⟨_, _, -, hlast⟩ := runOn_bind_ok hrest
      have hcounts := ih hlast
      exact hcounts

lemma gathered_of_runCycle (h : recorder.runCycle.runOn host = (.ok report, stopped)) :
    ∃ cycleId saved unpublished between gathered after,
      recorder.opening.runOn host = (.ok (cycleId, saved, unpublished), between) ∧
      (recorder.gather saved recorder.config.sessionDirs (.start cycleId saved)).runOn between =
        (.ok gathered, after) ∧
      report.filesScanned = gathered.report.filesScanned ∧
      report.readFailures = gathered.report.readFailures := by
  obtain ⟨digits, drawn, hdraws, h⟩ := runOn_bind_ok h
  obtain ⟨_, tagged, hcontext, h⟩ := runOn_bind_ok h
  obtain ⟨_, replayed, hreplay, h⟩ := runOn_bind_ok h
  obtain ⟨saved, loaded, hsaved, h⟩ := runOn_bind_ok h
  obtain ⟨unpublished, between, hunpublished, h⟩ := runOn_bind_ok h
  obtain ⟨gathered, after, hgather, h⟩ := runOn_bind_ok h
  obtain ⟨prepared, _, -, h⟩ := runOn_bind_ok h
  obtain ⟨_, _, -, h⟩ := runOn_bind_ok h
  obtain ⟨⟨published, left⟩, _, hpublish, h⟩ := runOn_bind_ok h
  obtain ⟨_, _, -, h⟩ := runOn_bind_ok h
  obtain ⟨_, _, -, h⟩ := runOn_bind_ok h
  cases h
  refine ⟨_, saved, unpublished, between, gathered, after, ?_, hgather, runOn_publishBuilds hpublish⟩
  simp only [opening, runOn_bind, hdraws, hcontext, hreplay, hsaved, hunpublished]
  rfl

/-! ### One cycle -/

/-- What a cycle does with the logs that it finds: each is visited as often as a session directory is
above it. -/
structure Consumed (recorder : Recorder) (cycleId : Bytes) (saved : Offsets) (between : Host)
    (report : Report) (visits : List Visit) : Prop where
  logs : (visits.map (·.log)).Perm (recorder.logs between)
  scanned : report.filesScanned = visits.length
  failures : report.readFailures = visits.filterMap (·.failure)
  named : ∀ visit ∈ visits, ∀ failure, visit.failure = some failure →
    ∃ problem, failure = failureText saved visit.log.path problem
  reads : (recorder.gather saved recorder.config.sessionDirs (.start cycleId saved)).reads between =
    (visits.filter (·.read)).map (·.log.path)

variable {cycleId : Bytes} {saved : Offsets} {between : Host} {visits : List Visit}

lemma Consumed.places (h : Consumed recorder cycleId saved between report visits) :
    (visits.map (·.log.key)).Perm (places (recorder.logs between)) := by
  have hkeys := h.logs.map (·.key)
  rwa [List.map_map] at hkeys

lemma Consumed.scanned_eq_iff (h : Consumed recorder cycleId saved between report visits) :
    report.filesScanned = (Recorder.places (recorder.logs between)).dedup.length ↔
      (visits.map (·.log.key)).Nodup := by
  have hlength : report.filesScanned = (Recorder.places (recorder.logs between)).length := by
    rw [← h.places.length_eq, List.length_map, h.scanned]
  rw [hlength, h.places.nodup_iff, ← List.dedup_eq_self]
  constructor
  · intro heq
    exact (List.dedup_sublist _).eq_of_length heq.symm
  · intro heq
    rw [heq]

/-- No log is below two session directories. -/
def Separate (recorder : Recorder) (host : Host) : Prop :=
  recorder.config.sessionDirs.Pairwise fun dir other =>
    (places (host.logsBelow (recorder.config.root.join dir))).Disjoint
      (places (host.logsBelow (recorder.config.root.join other)))

lemma nodup_places_iff (h : host.disk.WellFormed) :
    (places (recorder.logs host)).Nodup ↔ recorder.Separate host := by
  rw [places, logs, List.map_flatMap, List.nodup_flatMap]
  exact and_iff_right fun dir _ => host.logsBelow_nodup h _

/-- **A cycle consumes a log** once for each session directory above it: that often it counts it, reads it at
most, and reports at most that it could not be read. So it consumes each log once, and counts as many as there
are, exactly if no log is below two session directories; that is so where the directories are apart. -/
theorem consumes_each_log_per_directory (hdisk : host.disk.WellFormed) (hhost : host.watches = [])
    (hrun : recorder.runCycle.runOn host = (.ok report, stopped)) :
    ∃ cycleId saved unpublished between visits,
      recorder.opening.runOn host = (.ok (cycleId, saved, unpublished), between) ∧
      Consumed recorder cycleId saved between report visits ∧
      ((visits.map (·.log.key)).Nodup ↔ recorder.Separate between) ∧
      (report.filesScanned = (places (recorder.logs between)).dedup.length ↔
        recorder.Separate between) ∧
      (recorder.config.sessionDirs.Pairwise (fun dir other =>
        between.Apart (recorder.config.root.join dir) (recorder.config.root.join other)) →
          recorder.Separate between) := by
  obtain ⟨cycleId, saved, unpublished, between, gathered, after, hopening, hgather, hscanned, hfailures⟩ :=
    gathered_of_runCycle hrun
  have hbetween : between.disk.WellFormed := by
    have htree := recorder.opening.runOn_wellFormed hdisk
    rwa [hopening] at htree
  have halone : between.watches = [] := by
    have hnobody := recorder.opening.runOn_watches hhost
    rwa [hopening] at hnobody
  -- The visits are those of the gathering; the rest of the cycle neither counts nor reads logs.
  obtain ⟨visits, hlogs, hvisited⟩ := runOn_gather hbetween halone hgather
  have hconsumed : Consumed recorder cycleId saved between report visits :=
    { logs := hlogs
      scanned := by
        rw [hscanned, hvisited.scanned]
        exact Nat.zero_add _
      failures := by
        rw [hfailures, hvisited.failures]
        exact List.nil_append _
      named := hvisited.named
      reads := hvisited.reads_eq }
  have honce : (visits.map (·.log.key)).Nodup ↔ recorder.Separate between :=
    hconsumed.places.nodup_iff.trans (nodup_places_iff hbetween)
  refine ⟨cycleId, saved, unpublished, between, visits, hopening, hconsumed, honce,
    hconsumed.scanned_eq_iff.trans honce, fun hapart => ?_⟩
  exact hapart.imp fun h => h.disjoint

/-! ### Two directories with a log each -/

/-- A recorder for these session directories below `/r`. -/
def ofDirectories (sessionDirs : List Bytes) : Recorder where
  config :=
    { root := ⟨utf8 "/r"⟩, outDir := ⟨utf8 "/o"⟩, sessionDirs := sessionDirs
      redaction := { patterns := [] } }
  redaction := ⟨.hashOnly, []⟩

/-- The directories `/r/s` and `/r/t` with a log of one line each. -/
def twoLogs : Host where
  disk :=
    ⟨[([utf8 "r"], .directory), ([utf8 "r", utf8 "s"], .directory), ([utf8 "r", utf8 "t"], .directory),
      ([utf8 "r", utf8 "s", utf8 "a.jsonl"], .file (utf8 "x\n")),
      ([utf8 "r", utf8 "t", utf8 "b.jsonl"], .file (utf8 "x\n"))]⟩

lemma twoLogs_wellFormed : twoLogs.disk.WellFormed where
  keys_nodup := by decide +kernel
  key_ne_nil := by decide +kernel
  parent_directory := by decide +kernel

/-- The two logs are consumed once each. -/
theorem consumes_each_log_per_directory_twoLogs :
    twoLogs.disk.WellFormed ∧ twoLogs.watches = [] ∧
    ∃ report stopped, (ofDirectories [utf8 "s", utf8 "t"]).runCycle.runOn twoLogs = (.ok report, stopped) ∧
      report.filesScanned = 2 ∧
      ∃ cycleId saved between visits,
        Consumed (ofDirectories [utf8 "s", utf8 "t"]) cycleId saved between report visits ∧
        (visits.map (·.log.key)).Nodup := by
  obtain ⟨report, hreport, hcount⟩ : ∃ report,
      ((ofDirectories [utf8 "s", utf8 "t"]).runCycle.runOn twoLogs).1 = .ok report ∧
        report.filesScanned = 2 :=
    ⟨{ cycleId := utf8 "cycle-00000000", filesScanned := 2, linesRead := 2, linesSkipped := 2 },
      by decide +kernel⟩
  rcases hrun : (ofDirectories [utf8 "s", utf8 "t"]).runCycle.runOn twoLogs with ⟨result, stopped⟩
  rw [hrun] at hreport
  obtain rfl : result = .ok report := hreport
  obtain ⟨cycleId, saved, unpublished, between, visits, hopening, hconsumed, -, -, -⟩ :=
    consumes_each_log_per_directory twoLogs_wellFormed rfl hrun
  have hdistinct : (places ((ofDirectories [utf8 "s", utf8 "t"]).logs between)).dedup.length = 2 := by
    have hbetween : between = ((ofDirectories [utf8 "s", utf8 "t"]).opening.runOn twoLogs).2 := by
      rw [hopening]
    rw [hbetween]
    decide +kernel
  exact ⟨twoLogs_wellFormed, rfl, report, stopped, rfl, hcount, cycleId, saved, between, visits, hconsumed,
    hconsumed.scanned_eq_iff.mp (hcount.trans hdistinct.symm)⟩

/-- A session directory that is given twice is accepted; the log below it is read twice in one cycle, and the
line that it holds is taken for two. -/
theorem repeated_directory_read_twice :
    ((create (ofDirectories [utf8 "s", utf8 "s"]).config).runOn twoLogs).1 =
      .ok (ofDirectories [utf8 "s", utf8 "s"]) ∧
    (places ((ofDirectories [utf8 "s", utf8 "s"]).logs twoLogs)).dedup =
      [[utf8 "r", utf8 "s", utf8 "a.jsonl"]] ∧
    ∃ report, ((ofDirectories [utf8 "s", utf8 "s"]).runCycle.runOn twoLogs).1 = .ok report ∧
      report.filesScanned = 2 ∧ report.linesRead = 2 ∧
      (((ofDirectories [utf8 "s", utf8 "s"]).runCycle.reads twoLogs).filter
        (· = ⟨utf8 "/r/s/a.jsonl"⟩)).length = 2 := by
  refine ⟨by decide +kernel, by decide +kernel,
    { cycleId := utf8 "cycle-00000000", filesScanned := 2, linesRead := 2, linesSkipped := 2 }, ?_⟩
  decide +kernel

end Chronicle.Recorder
