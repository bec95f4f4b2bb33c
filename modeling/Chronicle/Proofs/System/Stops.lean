import Chronicle.System.Host
import Mathlib.Tactic.Lemma

/-!
Runs that are cut off.

A program can be cut off before any request, after it, or, where it writes to a file, in the middle: then
the file holds a beginning of what was to be written. What the host looks like at that moment is all
that another run has to go on. The end of a run is one of these moments too, so what holds at all of them
holds at the end.
-/

namespace Chronicle

/-- A write that was cut off: a beginning of the data has been written. -/
inductive Host.Torn (host : Host) : Request → Host → Prop
  | overwrite {path : Path} {data part : Bytes} (h : part <+: data) :
      Torn host (.overwrite path data) (host.answer (.overwrite path part)).2
  | append {path : Path} {data part : Bytes} (h : part <+: data) :
      Torn host (.append path data) (host.answer (.append path part)).2

namespace Program

variable {α β : Type}

/-- What the host can look like when a program that started on it is cut off. -/
inductive Stops : Program α → Host → Host → Prop
  | here (program : Program α) (host : Host) : Stops program host host
  | torn {request : Request} {go : request.Answer → Program α} {host stopped : Host}
      (h : host.Torn request stopped) : Stops (.ask request go) host stopped
  | later {request : Request} {go : request.Answer → Program α} {host stopped : Host}
      (h : Stops (go (host.answer request).1) (host.answer request).2 stopped) :
      Stops (.ask request go) host stopped

lemma stops_runOn (program : Program α) (host : Host) :
    program.Stops host (program.runOn host).2 := by
  induction program generalizing host with
  | done value => exact .here _ host
  | fail failure => exact .here _ host
  | ask request go ih => exact .later (ih _ _)

lemma Stops.done {value : α} {host stopped : Host} (h : (Program.done value).Stops host stopped) :
    stopped = host := by
  cases h
  rfl

lemma Stops.fail {failure : Failure} {host stopped : Host}
    (h : (Program.fail failure : Program α).Stops host stopped) : stopped = host := by
  cases h
  rfl

lemma Stops.ask {request : Request} {go : request.Answer → Program α} {host stopped : Host}
    (h : (Program.ask request go).Stops host stopped) :
    stopped = host ∨ host.Torn request stopped ∨
      (go (host.answer request).1).Stops (host.answer request).2 stopped := by
  cases h with
  | here => exact Or.inl rfl
  | torn h => exact Or.inr (Or.inl h)
  | later h => exact Or.inr (Or.inr h)

lemma Stops.request_bind {request : Request} {next : request.Answer → Program α}
    {host stopped : Host} (h : (Program.request request >>= next).Stops host stopped) :
    stopped = host ∨ host.Torn request stopped ∨
      (next (host.answer request).1).Stops (host.answer request).2 stopped :=
  Stops.ask h

/-- **A sequence is cut off** in its first part, or in its second part after the first one is done. -/
theorem Stops.bind {program : Program α} {next : α → Program β} {host stopped : Host}
    (h : (program >>= next).Stops host stopped) :
    program.Stops host stopped ∨
      ∃ value between, program.runOn host = (.ok value, between) ∧
        (next value).Stops between stopped := by
  induction program generalizing host with
  | done value => exact Or.inr ⟨value, host, rfl, h⟩
  | fail failure =>
    have hsame : stopped = host := h.fail
    subst hsame
    exact Or.inl (.here _ _)
  | ask request go ih =>
    rcases Stops.ask h with rfl | htorn | hlater
    · exact Or.inl (.here _ _)
    · exact Or.inl (.torn htorn)
    · rcases ih _ hlater with hfirst | ⟨value, between, hrun, hsecond⟩
      · exact Or.inl (.later hfirst)
      · exact Or.inr ⟨value, between, hrun, hsecond⟩

/-- Nothing happens after the last request of a program whose result is dropped. -/
lemma Stops.of_bind_done {program : Program α} {value : β} {host stopped : Host}
    (h : (program >>= fun _ => Program.done value).Stops host stopped) :
    program.Stops host stopped := by
  rcases h.bind with hfirst | ⟨first, between, hrun, hlast⟩
  · exact hfirst
  · have hend := stops_runOn program host
    rwa [hrun, ← hlast.done] at hend

/-! ### Programs that only look -/

/-- Every request that a program can make is allowed. -/
inductive Only (allowed : Request → Prop) : Program α → Prop
  | done (value : α) : Only allowed (.done value)
  | fail (failure : Failure) : Only allowed (.fail failure)
  | ask {request : Request} {go : request.Answer → Program α} (h : allowed request)
      (hgo : ∀ answer, Only allowed (go answer)) : Only allowed (.ask request go)

lemma Only.mono {allowed allowed' : Request → Prop} {program : Program α} (h : program.Only allowed)
    (hmore : ∀ request, allowed request → allowed' request) : program.Only allowed' := by
  induction h with
  | done value => exact .done value
  | fail failure => exact .fail failure
  | ask h _ ih => exact .ask (hmore _ h) ih

lemma Only.bind {allowed : Request → Prop} {program : Program α} {next : α → Program β}
    (h : program.Only allowed) (hnext : ∀ value, (next value).Only allowed) :
    (program >>= next).Only allowed := by
  induction h with
  | done value => exact hnext value
  | fail failure => exact .fail failure
  | ask h _ ih => exact .ask h ih

/-- Requests that ask about a path and change nothing. -/
def Looking (request : Request) : Prop := ∃ path, request = .status path

lemma Only.stops {program : Program α} (h : program.Only Looking) {host stopped : Host}
    (hstops : program.Stops host stopped) : stopped = host := by
  induction h with
  | done value => exact hstops.done
  | fail failure => exact hstops.fail
  | ask h _ ih =>
    obtain ⟨path, rfl⟩ := h
    rcases hstops.ask with hsame | htorn | hlater
    · exact hsame
    · cases htorn
    · exact ih _ hlater

/-! ### Runs of sequences -/

lemma runOn_request_bind (request : Request) (next : request.Answer → Program α) (host : Host) :
    (Program.request request >>= next).runOn host =
      (next (host.answer request).1).runOn (host.answer request).2 := rfl

lemma runOn_bind (program : Program α) (next : α → Program β) (host : Host) :
    (program >>= next).runOn host =
      match program.runOn host with
      | (.ok value, between) => (next value).runOn between
      | (.error failure, between) => (.error failure, between) := by
  rw [runOn, run_bind, runOn]
  rcases program.run Host.answer host with ⟨failure | value, between⟩ <;> rfl

lemma runOn_bind_ok {program : Program α} {next : α → Program β} {host after : Host} {value : β}
    (h : (program >>= next).runOn host = (.ok value, after)) :
    ∃ first between, program.runOn host = (.ok first, between) ∧
      (next first).runOn between = (.ok value, after) := by
  rw [runOn_bind] at h
  rcases hrun : program.runOn host with ⟨failure | first, between⟩
  · rw [hrun] at h
    cases h
  · rw [hrun] at h
    exact ⟨first, between, rfl, h⟩

lemma runOn_bind_done {program : Program α} {value : β} {host after : Host} {result : β}
    (h : (program >>= fun _ => Program.done value).runOn host = (.ok result, after)) :
    ∃ first, program.runOn host = (.ok first, after) := by
  obtain ⟨first, between, hrun, hlast⟩ := runOn_bind_ok h
  cases hlast
  exact ⟨first, hrun⟩

/-- A sequence that fails does so in its first part, or in its second part after the first one is done. -/
lemma runOn_bind_error {program : Program α} {next : α → Program β} {host after : Host}
    {failure : Failure} (h : (program >>= next).runOn host = (.error failure, after)) :
    program.runOn host = (.error failure, after) ∨
      ∃ first between, program.runOn host = (.ok first, between) ∧
        (next first).runOn between = (.error failure, after) := by
  rw [runOn_bind] at h
  rcases hrun : program.runOn host with ⟨failure' | first, between⟩
  · rw [hrun] at h
    cases h
    exact Or.inl rfl
  · rw [hrun] at h
    exact Or.inr ⟨first, between, rfl, h⟩

end Program

end Chronicle
