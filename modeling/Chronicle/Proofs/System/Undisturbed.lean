import Chronicle.Proofs.Disk.Tree
import Chronicle.Proofs.System.Stops

/-!
What a run leaves as it is.

Whatever a program asks and whatever others do meanwhile, the disk of a host stays a tree. Where nobody is
waiting to meddle, a program that asks for no change finds the same disk at each of its requests. The files
that it reads are those it asks for, in turn.
-/

namespace Chronicle

/-! ### A disk that stays a tree -/

namespace Host

variable {host after : Host}

lemma disturb_wellFormed (h : host.disk.WellFormed) (disturbance : Disturbance) :
    (host.disturb disturbance).disk.WellFormed := by
  cases disturbance with
  | put path data => exact h.put _ _ _
  | removeAll path => exact h.removeAll _ _
  | makeDirectories path => exact h.makeDirectories _ _
  | stop => exact h
  | stopAfter milliseconds => exact h

lemma print_wellFormed (h : host.disk.WellFormed) (stream : Log.Stream) (line : Bytes) :
    (host.print stream line).disk.WellFormed :=
  List.foldlRecOn (motive := fun host : Host => host.disk.WellFormed) _ _ h
    fun _ h disturbance _ => disturb_wellFormed h disturbance

lemma log_wellFormed (h : host.disk.WellFormed) (level : Log.Level) (message : Bytes) :
    (host.log level message).disk.WellFormed := by
  unfold log
  split
  · exact List.foldlRecOn (motive := fun host : Host => host.disk.WellFormed) _ _ h
      fun _ h line _ => print_wellFormed h _ line
  · exact h

lemma withDisk_wellFormed (h : host.disk.WellFormed) {result : Except Errno Disk}
    (hresult : ∀ disk, result = .ok disk → disk.WellFormed) : (host.withDisk result).2.disk.WellFormed := by
  cases result with
  | error reason => exact h
  | ok disk => exact hresult disk rfl

theorem answer_wellFormed (h : host.disk.WellFormed) (request : Request) :
    (host.answer request).2.disk.WellFormed := by
  cases request with
  | makeDirectories path => exact h.makeDirectories _ _
  | overwrite path data => exact h.writeBehind _ _ _ _ _
  | append path data => exact h.writeBehind _ _ _ _ _
  | rename source target => exact withDisk_wellFormed h fun _ => h.rename
  | remove path => exact withDisk_wellFormed h fun _ => h.remove
  | truncate path size => exact withDisk_wellFormed h fun _ => h.truncate
  | log level message => exact log_wellFormed h level message
  | _ => exact h

end Host

/-- **A run leaves the disk a tree**, whatever others do meanwhile. -/
theorem Program.runOn_wellFormed {α : Type} (program : Program α) {host : Host}
    (h : host.disk.WellFormed) : (program.runOn host).2.disk.WellFormed := by
  induction program generalizing host with
  | done value => exact h
  | fail failure => exact h
  | ask request go ih => exact ih _ (Host.answer_wellFormed h request)

/-! ### A disk that stays as it is -/

/-- A request that asks for no change on the disk. -/
def Request.Harmless : Request → Prop
  | .makeDirectories _ | .overwrite _ _ | .append _ _ | .rename _ _ | .remove _ | .truncate _ _ => False
  | _ => True

/-- The disk is as before, it is seen from the same directory with the same limits, and nobody is waiting
to change it. -/
structure Host.Same (host after : Host) : Prop where
  disk : after.disk = host.disk
  here : after.here = host.here
  limits : after.limits = host.limits
  watches : after.watches = []

namespace Host

variable {host after : Host}

lemma Same.refl (h : host.watches = []) : Same host host := ⟨rfl, rfl, rfl, h⟩

lemma Same.trans {last : Host} (h : Same host after) (h' : Same after last) : Same host last :=
  ⟨h'.disk.trans h.disk, h'.here.trans h.here, h'.limits.trans h.limits, h'.watches⟩

lemma print_same (h : host.watches = []) (stream : Log.Stream) (line : Bytes) :
    Same host (host.print stream line) := by
  unfold print
  rw [h]
  exact ⟨rfl, rfl, rfl, rfl⟩

lemma log_same (h : host.watches = []) (level : Log.Level) (message : Bytes) :
    Same host (host.log level message) := by
  unfold log
  split
  · exact List.foldlRecOn (motive := Same host) _ _ (Same.refl h)
      fun _ hsame line _ => hsame.trans (print_same hsame.watches _ line)
  · exact Same.refl h

lemma answer_same (h : host.watches = []) {request : Request} (hrequest : request.Harmless) :
    Same host (host.answer request).2 := by
  cases request with
  | log level message => exact log_same h level message
  | makeDirectories _ | overwrite _ _ | append _ _ | rename _ _ | remove _ | truncate _ _ =>
    exact hrequest.elim
  | _ => exact ⟨rfl, rfl, rfl, h⟩

lemma withDisk_watches (host : Host) (result : Except Errno Disk) :
    (host.withDisk result).2.watches = host.watches := by
  cases result <;> rfl

lemma answer_watches (h : host.watches = []) (request : Request) :
    (host.answer request).2.watches = [] := by
  cases request with
  | log level message => exact (log_same h level message).watches
  | rename _ _ | remove _ | truncate _ _ => exact (withDisk_watches host _).trans h
  | _ => exact h

end Host

namespace Program

variable {α : Type} {host : Host}

lemma Only.request {allowed : Request → Prop} {request : Request} (h : allowed request) :
    (Program.request request).Only allowed :=
  .ask h .done

/-- **A harmless run** leaves the disk as it is. -/
theorem Only.runOn_same {program : Program α} (h : program.Only Request.Harmless)
    (hhost : host.watches = []) : host.Same (program.runOn host).2 := by
  induction h generalizing host with
  | done value => exact .refl hhost
  | fail failure => exact .refl hhost
  | ask hrequest _ ih =>
    have hfirst := Host.answer_same hhost hrequest
    exact hfirst.trans (ih _ hfirst.watches)

lemma runOn_watches (program : Program α) (hhost : host.watches = []) :
    (program.runOn host).2.watches = [] := by
  induction program generalizing host with
  | done value => exact hhost
  | fail failure => exact hhost
  | ask request go ih => exact ih _ (Host.answer_watches hhost request)

lemma Only.attempt {allowed : Request → Prop} {program : Program α} (h : program.Only allowed) :
    program.attempt.Only allowed := by
  induction h with
  | done value => exact .done _
  | fail failure =>
    cases failure with
    | reported problem => exact .done _
    | crashed text => exact .fail _
  | ask h _ ih => exact .ask h ih

end Program

/-! ### What is read -/

/-- The file that a request reads. -/
def Request.read? : Request → Option Path
  | .read path => some path
  | _ => none

/-- A request that neither changes the disk nor reads a file. -/
def Request.Idle (request : Request) : Prop := request.Harmless ∧ request.read? = none

namespace Program

variable {α β : Type} {host : Host}

/-- The files that a run reads, in order. -/
def reads : Program α → Host → List Path
  | done _, _ => []
  | fail _, _ => []
  | ask request go, host =>
    request.read?.toList ++ reads (go (host.answer request).1) (host.answer request).2

lemma reads_bind {program : Program α} {next : α → Program β} {value : α} {between : Host}
    (h : program.runOn host = (.ok value, between)) :
    (program >>= next).reads host = program.reads host ++ (next value).reads between := by
  induction program generalizing host with
  | done first =>
    cases h
    rfl
  | fail failure => cases h
  | ask request go ih =>
    rw [reads, List.append_assoc, ← ih _ h]
    rfl

lemma reads_attempt (program : Program α) (host : Host) :
    program.attempt.reads host = program.reads host := by
  induction program generalizing host with
  | done value => rfl
  | fail failure => cases failure <;> rfl
  | ask request go ih => exact congrArg (request.read?.toList ++ ·) (ih _ _)

lemma Only.harmless {program : Program α} (h : program.Only Request.Idle) :
    program.Only Request.Harmless := by
  induction h with
  | done value => exact .done value
  | fail failure => exact .fail failure
  | ask h _ ih => exact .ask h.1 ih

lemma Only.reads_eq_nil {program : Program α} (h : program.Only Request.Idle) (host : Host) :
    program.reads host = [] := by
  induction h generalizing host with
  | done value => rfl
  | fail failure => rfl
  | ask h _ ih => rw [reads, h.2, ih]; rfl

end Program

end Chronicle
