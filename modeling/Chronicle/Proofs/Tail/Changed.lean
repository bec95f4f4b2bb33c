import Chronicle.Proofs.System.Ends
import Chronicle.Proofs.Tail.Discovery
import Chronicle.Proofs.Tail.ExactlyOnce

/-!
Logs that change after they were found.

After it has been found a log can vanish, be replaced, or become unreadable before it is read. A reader
learns of it from the answers to its two questions, what is there and what is in it; every other request is
answered as if nothing had happened. A program that asks neither question about a log that has changed
runs as it always does.
-/

namespace Chronicle

open Disk

namespace Tail

/-- What a reader is told about a log. -/
structure Look where
  status : Except Errno Disk.Status
  read : Disk.ReadResult
  deriving DecidableEq, Repr

/-- The logs that have changed since they were found, and what a reader is told about them. -/
abbrev Looks := Path → Option Look

end Tail

open Tail

/-- What a reader is told about a path. -/
def Host.look (host : Host) (looks : Looks) (path : Path) : Look :=
  (looks path).getD ⟨host.disk.status host.here path, host.disk.read host.here host.limits path⟩

/-- How the host answers while logs change. -/
def Host.answerSeeing (looks : Looks) : (request : Request) → Host → request.Answer × Host
  | .status path, host => ((host.look looks path).status, host)
  | .read path, host => ((host.look looks path).read, host)
  | request, host => host.answer request

/-- A request that asks nothing about a log that has changed. -/
def Request.Unaware (looks : Looks) : Request → Prop
  | .status path | .read path => looks path = none
  | _ => True

/-- A request that is answered from the disk and changes nothing there. -/
def Request.Surveys : Request → Prop
  | .status _ | .read _ | .walk _ | .log _ _ => True
  | _ => False

variable {host after : Host} {looks : Looks} {request : Request} {log directory : Path} {content : Bytes}

lemma Host.answerSeeing_eq (h : request.Unaware looks) (host : Host) :
    Host.answerSeeing looks request host = host.answer request := by
  cases request with
  | status path =>
    have hnone : looks path = none := h
    rw [answerSeeing, look, hnone]
    rfl
  | read path =>
    have hnone : looks path = none := h
    rw [answerSeeing, look, hnone]
    rfl
  | _ => rfl

lemma Host.answerSeeing_same (hhost : host.watches = []) (h : request.Harmless) :
    host.Same (Host.answerSeeing looks request host).2 := by
  cases request with
  | status path => exact .refl hhost
  | read path => exact .refl hhost
  | _ => exact answer_same hhost h

lemma Host.Same.look_eq (h : host.Same after) (looks : Looks) (path : Path) :
    after.look looks path = host.look looks path := by
  rw [look, look, h.disk, h.here, h.limits]

lemma Host.Same.answerSeeing_eq (h : host.Same after) (hrequest : request.Surveys) :
    (Host.answerSeeing looks request after).1 = (Host.answerSeeing looks request host).1 := by
  cases request with
  | status path => exact congrArg Look.status (h.look_eq looks path)
  | read path => exact congrArg Look.read (h.look_eq looks path)
  | walk path =>
    simp only [answerSeeing, answer]
    rw [h.disk, h.here, h.limits]
  | log level message => rfl
  | _ => exact hrequest.elim

lemma Request.Surveys.harmless (h : request.Surveys) : request.Harmless := by
  cases request <;> trivial

/-! ### Runs -/

namespace Program

variable {α β : Type}

/-- Runs a program while logs change. -/
def runSeeing (looks : Looks) (program : Program α) (host : Host) : Except Failure α × Host :=
  program.run (Host.answerSeeing looks) host

lemma runSeeing_bind (program : Program α) (next : α → Program β) (host : Host) :
    (program >>= next).runSeeing looks host =
      match program.runSeeing looks host with
      | (.ok value, between) => (next value).runSeeing looks between
      | (.error failure, between) => (.error failure, between) := by
  rw [runSeeing, run_bind, runSeeing]
  rcases program.run (Host.answerSeeing looks) host with ⟨failure | value, between⟩ <;> rfl

lemma runSeeing_attempt (program : Program α) (host : Host) :
    program.attempt.runSeeing looks host =
      match program.runSeeing looks host with
      | (.ok value, between) => (.ok (.ok value), between)
      | (.error (.reported problem), between) => (.ok (.error problem), between)
      | (.error (.crashed text), between) => (.error (.crashed text), between) := by
  rw [runSeeing, run_attempt, runSeeing]
  rcases program.run (Host.answerSeeing looks) host with ⟨(problem | text) | value, between⟩ <;> rfl

/-- **A program that asks about no log that has changed** runs as ever. -/
theorem Only.runSeeing_eq {program : Program α} (h : program.Only (Request.Unaware looks)) (host : Host) :
    program.runSeeing looks host = program.runOn host := by
  induction h generalizing host with
  | done value => rfl
  | fail failure => rfl
  | ask hrequest _ ih =>
    rw [runSeeing, runOn, run, run, Host.answerSeeing_eq hrequest]
    exact ih _ _

lemma Only.runSeeing_same {program : Program α} (h : program.Only Request.Harmless)
    (hhost : host.watches = []) : host.Same (program.runSeeing looks host).2 := by
  induction h generalizing host with
  | done value => exact .refl hhost
  | fail failure => exact .refl hhost
  | ask hrequest _ ih =>
    have hfirst : host.Same (Host.answerSeeing looks _ host).2 := Host.answerSeeing_same hhost hrequest
    exact hfirst.trans (ih _ hfirst.watches)

/-- Whoever only surveys the disk finds the same on the same disk. -/
lemma Only.runSeeing_congr {program : Program α} (h : program.Only Request.Surveys)
    (hhost : host.watches = []) (hsame : host.Same after) :
    (program.runSeeing looks after).1 = (program.runSeeing looks host).1 := by
  induction h generalizing host after with
  | done value => rfl
  | fail failure => rfl
  | @ask request go hrequest _ ih =>
    rw [runSeeing, runSeeing, run, run, hsame.answerSeeing_eq hrequest]
    have hfirst : host.Same (Host.answerSeeing looks request host).2 :=
      Host.answerSeeing_same hhost hrequest.harmless
    have hother : after.Same (Host.answerSeeing looks request after).2 :=
      Host.answerSeeing_same hsame.watches hrequest.harmless
    refine ih _ hfirst.watches ⟨?_, ?_, ?_, hother.watches⟩
    · rw [hother.disk, hsame.disk, hfirst.disk]
    · rw [hother.here, hsame.here, hfirst.here]
    · rw [hother.limits, hsame.limits, hfirst.limits]

end Program

/-! ### Discovery -/

/-- The logs below a directory, in the order in which they are found. -/
def Host.found (host : Host) (directory : Path) : List Path :=
  match ((findLogs directory).runOn host).1 with
  | .ok logs => logs
  | .error _ => []

namespace Tail

lemma extension_of_mem_logsOf {found : List Found} (h : log ∈ logsOf found) :
    log.extension = logExtension := by
  obtain ⟨entry, hentry, rfl⟩ := List.mem_map.mp ((sortBy_perm _ _).mem_iff.mp h)
  have hlog := (List.mem_filter.mp hentry).2
  simp only [isLog, Bool.and_eq_true, beq_iff_eq] at hlog
  exact hlog.2

lemma gives_findLogs (directory : Path) :
    (findLogs directory).Gives fun logs => ∀ log ∈ logs, log.extension = logExtension := by
  have hdirectory : (Storage.isDirectory directory).Gives fun _ => True := by
    intro status
    cases status <;> exact ⟨_, rfl, trivial⟩
  refine hdirectory.bind fun isDirectory _ => ?_
  split
  · intro result
    cases result with
    | ok found => exact ⟨_, rfl, fun log hlog => extension_of_mem_logsOf hlog⟩
    | error reason => exact fun _ => ⟨[], rfl, fun _ hlog => nomatch hlog⟩
  · exact fun _ => ⟨[], rfl, fun _ hlog => nomatch hlog⟩

lemma findLogs_surveys (directory : Path) : (findLogs directory).Only Request.Surveys := by
  refine (findLogs_asks directory).mono ?_
  rintro request (rfl | rfl | ⟨level, message, rfl⟩) <;> trivial

lemma runSeeing_findLogs (h : looks directory = none) (host : Host) :
    (findLogs directory).runSeeing looks host = (findLogs directory).runOn host := by
  refine ((findLogs_asks directory).mono ?_).runSeeing_eq host
  rintro request (rfl | rfl | ⟨level, message, rfl⟩)
  · exact h
  · trivial
  · trivial

end Tail

namespace Host

lemma runOn_findLogs (host : Host) (directory : Path) :
    ((findLogs directory).runOn host).1 = .ok (host.found directory) := by
  obtain ⟨logs, hrun, -⟩ := (gives_findLogs directory).run Host.answer host
  have hrun : ((findLogs directory).runOn host).1 = .ok logs := hrun
  rw [found, hrun]

lemma extension_of_found (h : log ∈ host.found directory) : log.extension = logExtension := by
  obtain ⟨logs, hrun, hlogs⟩ := (gives_findLogs directory).run Host.answer host
  have hrun : ((findLogs directory).runOn host).1 = .ok logs := hrun
  rw [found, hrun] at h
  exact hlogs log h

lemma Same.found_eq (h : host.Same after) (hhost : host.watches = []) (directory : Path) :
    after.found directory = host.found directory := by
  have hresult : ((findLogs directory).runSeeing (fun _ => none) after).1 =
      ((findLogs directory).runSeeing (fun _ => none) host).1 :=
    (findLogs_surveys directory).runSeeing_congr hhost h
  rw [runSeeing_findLogs rfl, runSeeing_findLogs rfl] at hresult
  rw [found, found, hresult]

end Host

/-! ### Reading -/

namespace Tail

/-- What a reader gets who reads a log from its start. -/
def reading (looks : Looks) (host : Host) (log : Path) : Except Failure Batch :=
  ((readNewLines log 0).runSeeing looks host).1

/-- The problem with which a log cannot be read. -/
def problem? (looks : Looks) (host : Host) (log : Path) : Option Problem :=
  match reading looks host log with
  | .error (.reported problem) => some problem
  | _ => none

/-- A text without finished lines, empty ones aside. -/
def Unfinished (text : Bytes) : Prop := ∃ lines rest, Lined text lines rest ∧ ∀ line ∈ lines, line = []

lemma fileSize_asks (path : Path) : (Storage.fileSize path).Only (· = .status path) := by
  refine .bind (.request rfl) fun status => ?_
  rcases status with reason | ⟨kind, size⟩
  · exact .done _
  · cases kind <;> exact .done _

lemma readNewLines_asks (log : Path) (offset : Nat) :
    (readNewLines log offset).Only fun request => request = .status log ∨ request = .read log := by
  have hsize := (fileSize_asks log).mono fun request h => Or.inl (b := request = .read log) h
  refine .bind hsize fun size => ?_
  cases size with
  | error reason => exact .fail _
  | ok size =>
    dsimp only
    split
    · exact .done _
    · refine .bind (.request (Or.inr rfl)) fun result => ?_
      cases result with
      | content content =>
        dsimp only
        split
        · exact .fail _
        · exact .done _
      | endless => exact .done _
      | unopened | unreadable => exact .fail _

lemma readNewLines_surveys (log : Path) (offset : Nat) : (readNewLines log offset).Only Request.Surveys := by
  refine (readNewLines_asks log offset).mono ?_
  rintro request (rfl | rfl) <;> trivial

lemma reading_same (hhost : host.watches = []) (h : host.Same after) (looks : Looks) (log : Path) :
    reading looks after log = reading looks host log :=
  (readNewLines_surveys log 0).runSeeing_congr hhost h

lemma reading_of_unchanged (h : looks log = none) (host : Host) :
    reading looks host log = ((readNewLines log 0).runOn host).1 := by
  rw [reading, ((readNewLines_asks log 0).mono ?_).runSeeing_eq host]
  rintro request (rfl | rfl) <;> exact h

/-- Where no line is finished, a reader only moves on to the place behind the last line break. -/
lemma reading_of_unfinished (h : looks log = none) (hshows : host.ShowsFile log content)
    (hcontent : Unfinished content) :
    ∃ batch, reading looks host log = .ok batch ∧ batch.lines = [] ∧
      BehindLastBreak content batch.newOffset := by
  obtain ⟨lines, rest, hlined, hempty⟩ := hcontent
  rw [reading_of_unchanged h, runOn_readNewLines hshows]
  have hbatch : Batch.ofContent content 0 =
      ⟨lines.filter (!·.isEmpty), 0, content.length - rest.length, content.length⟩ :=
    @ofContent_append [] content lines rest hlined
  refine ⟨_, rfl, ?_, ?_⟩
  · rw [hbatch, List.filter_eq_nil_iff]
    intro line hline
    simp [hempty line hline]
  · rw [hbatch]
    exact hlined.behindLastBreak

lemma problem?_of_status {found : Except Errno Disk.Status} (h : looks log = none)
    (hstatus : host.disk.status host.here log = found) (hfound : ∀ size, found ≠ .ok ⟨.regular, size⟩) :
    problem? looks host log ≠ none := by
  rw [problem?, reading_of_unchanged h, readNewLines, Program.runOn_bind, Storage.fileSize,
    Program.runOn_request_bind, Host.answer, hstatus]
  rcases found with reason | ⟨kind, size⟩
  · exact Option.some_ne_none _
  · cases kind with
    | regular => exact absurd rfl (hfound size)
    | _ => exact Option.some_ne_none _

/-- A log that has not changed and can be read is a file. -/
lemma exists_content_of_unchanged (hopening : host.limits.opening = true) (h : looks log = none)
    (hread : problem? looks host log = none) : ∃ content, host.ShowsFile log content := by
  have hregular : ∃ size, host.disk.status host.here log = .ok ⟨.regular, size⟩ := by
    by_contra hnone
    rw [not_exists] at hnone
    exact problem?_of_status h rfl hnone hread
  obtain ⟨size, hregular⟩ := hregular
  unfold Disk.status at hregular
  rcases hresolve : host.disk.resolve host.here true log with reason | (⟨place, entry⟩ | ⟨key, trailing⟩)
  · simp [hresolve] at hregular
  · rw [hresolve] at hregular
    cases entry with
    | file content =>
      have hthere : host.disk.standingEntry place = some (.file content) := resolve_isOn hresolve
      cases place with
      | inside key => exact ⟨content, hopening, key, hresolve⟩
      | detached parent => cases hthere
    | _ => simp [statusOf] at hregular
  · simp [hresolve] at hregular

end Tail

end Chronicle
