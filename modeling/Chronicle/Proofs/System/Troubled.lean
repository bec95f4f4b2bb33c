import Chronicle.Proofs.Disk.Changes
import Chronicle.Proofs.System.Stops

/-!
Runs in which anything can go wrong.

Besides the answer that a host gives, a request to the file system can be refused at any time: a directory
is not made, or some of those above it are, a file is not opened, a write breaks off behind a beginning of
the data, an entry is not moved or not removed. Random digits are any digits. What holds of all these runs
holds whatever fails and whenever it does.
-/

namespace Chronicle

open Disk

/-- How a request can fail although the host could have granted it. -/
inductive Host.Fails (host : Host) : (request : Request) → request.Answer → Host → Prop
  | makeDirectories {path : Path} {reason : Errno} {disk : Disk} (h : Furnished host.disk disk) :
      Fails host (.makeDirectories path) (some reason) { host with disk }
  | unopened {path : Path} {data : Bytes} : Fails host (.overwrite path data) .unopened host
  | cutShort {path : Path} {data part : Bytes} (h : part <+: data)
      (opened : (host.answer (.overwrite path part)).1 ≠ .unopened) :
      Fails host (.overwrite path data) .cutShort (host.answer (.overwrite path part)).2
  | rename {source target : Path} {reason : Errno} :
      Fails host (.rename source target) (some reason) host
  | remove {path : Path} {reason : Errno} : Fails host (.remove path) (some reason) host

/-- What a request can be answered with, and what the host looks like then. -/
inductive Host.MayAnswer (host : Host) : (request : Request) → request.Answer → Host → Prop
  | granted (request : Request) :
      MayAnswer host request (host.answer request).1 (host.answer request).2
  | failed {request : Request} {answer : request.Answer} {after : Host}
      (h : host.Fails request answer after) : MayAnswer host request answer after
  | drawn {count : Nat} {digits : List Nat} (h : ∀ digit ∈ digits, digit < 16) :
      MayAnswer host (.draws count) digits { host with drawn := host.drawn + 1 }

namespace Program

variable {α β : Type}

/-- How a program that started on a host can end, and what the host looks like then. -/
inductive MayEnd : Program α → Host → Except Failure α → Host → Prop
  | done (value : α) (host : Host) : MayEnd (.done value) host (.ok value) host
  | fail (failure : Failure) (host : Host) : MayEnd (.fail failure) host (.error failure) host
  | ask {request : Request} {go : request.Answer → Program α} {answer : request.Answer}
      {host between after : Host} {result : Except Failure α}
      (h : host.MayAnswer request answer between) (rest : MayEnd (go answer) between result after) :
      MayEnd (.ask request go) host result after

variable {host after : Host}

lemma mayEnd_runOn (program : Program α) (host : Host) :
    program.MayEnd host (program.runOn host).1 (program.runOn host).2 := by
  induction program generalizing host with
  | done value => exact .done value host
  | fail failure => exact .fail failure host
  | ask request go ih => exact .ask (.granted request) (ih _ _)

lemma MayEnd.of_done {value : α} {result : Except Failure α}
    (h : (Program.done value).MayEnd host result after) : result = .ok value ∧ after = host := by
  cases h
  exact ⟨rfl, rfl⟩

lemma MayEnd.of_fail {failure : Failure} {result : Except Failure α}
    (h : (Program.fail failure).MayEnd host result after) :
    result = .error failure ∧ after = host := by
  cases h
  exact ⟨rfl, rfl⟩

lemma MayEnd.request_bind {request : Request} {next : request.Answer → Program α}
    {result : Except Failure α}
    (h : (Program.request request >>= next).MayEnd host result after) :
    ∃ answer between, host.MayAnswer request answer between ∧
      (next answer).MayEnd between result after := by
  cases h with
  | ask h rest => exact ⟨_, _, h, rest⟩

lemma MayEnd.error_bind {program : Program α} {failure : Failure}
    (h : program.MayEnd host (.error failure) after) (next : α → Program β) :
    (program >>= next).MayEnd host (.error failure) after := by
  induction program generalizing host with
  | done value =>
    obtain ⟨hnever, -⟩ := h.of_done
    cases hnever
  | fail failure' =>
    obtain ⟨hfailure, rfl⟩ := h.of_fail
    cases hfailure
    exact .fail failure _
  | ask request go ih =>
    cases h with
    | ask hanswer rest => exact .ask hanswer (ih _ rest)

/-- **A sequence ends** with the failure of its first part, or as its second part does from there. -/
theorem MayEnd.bind {program : Program α} {next : α → Program β} {result : Except Failure β}
    (h : (program >>= next).MayEnd host result after) :
    (∃ failure, program.MayEnd host (.error failure) after ∧ result = .error failure) ∨
      ∃ value between, program.MayEnd host (.ok value) between ∧
        (next value).MayEnd between result after := by
  induction program generalizing host with
  | done value => exact Or.inr ⟨value, host, .done value host, h⟩
  | fail failure =>
    obtain ⟨rfl, rfl⟩ := h.of_fail
    exact Or.inl ⟨failure, .fail failure _, rfl⟩
  | ask request go ih =>
    cases h with
    | ask hanswer rest =>
      rcases ih _ rest with ⟨failure, hfirst, hresult⟩ | ⟨value, between, hfirst, hsecond⟩
      · exact Or.inl ⟨failure, .ask hanswer hfirst, hresult⟩
      · exact Or.inr ⟨value, between, .ask hanswer hfirst, hsecond⟩

end Program

/-! ### Limits -/

section

variable {host after : Host}

/-- Nothing that is asked changes what a process may use. -/
lemma limits_of_answer (host : Host) (request : Request) : (host.answer request).2.limits = host.limits := by
  have hdisturb : ∀ (host : Host) disturbance, (host.disturb disturbance).limits = host.limits := by
    intro host disturbance
    cases disturbance <;> rfl
  have hprint : ∀ (host : Host) stream line, (host.print stream line).limits = host.limits := by
    intro host stream line
    refine List.foldlRecOn (motive := fun printed : Host => printed.limits = host.limits) _ _ rfl ?_
    exact fun _ heq disturbance _ => (hdisturb _ disturbance).trans heq
  have hwith : ∀ result, (host.withDisk result).2.limits = host.limits := by
    intro result
    cases result <;> rfl
  cases request with
  | rename source target => exact hwith _
  | remove path => exact hwith _
  | truncate path size => exact hwith _
  | log level message =>
    change (host.log level message).limits = host.limits
    unfold Host.log
    split
    · refine List.foldlRecOn (motive := fun logged : Host => logged.limits = host.limits) _ _ rfl ?_
      exact fun _ heq line _ => (hprint _ _ line).trans heq
    · rfl
  | _ => rfl

lemma limits_of_mayAnswer {request : Request} {answer : request.Answer}
    (h : host.MayAnswer request answer after) : after.limits = host.limits := by
  cases h with
  | granted => exact limits_of_answer host request
  | failed h =>
    cases h with
    | cutShort => exact limits_of_answer host _
    | _ => rfl
  | drawn => rfl

lemma limits_of_mayEnd {α : Type} {program : Program α} {result : Except Failure α}
    (h : program.MayEnd host result after) : after.limits = host.limits := by
  induction h with
  | done => rfl
  | fail => rfl
  | ask hanswer _ ih => exact ih.trans (limits_of_mayAnswer hanswer)

end

end Chronicle
