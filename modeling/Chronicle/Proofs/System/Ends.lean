import Chronicle.System.Program
import Mathlib.Tactic.Lemma

/-!
What a program ends with, however its requests are answered.

The answers are chosen freely at each request, so what is said here holds of every run: the state that
answers come from is not mentioned.
-/

namespace Chronicle.Program

variable {α β σ : Type} {problem : Problem}

/-- A program ends with a good result, whatever the answers to its requests. -/
def Ends (good : Except Failure α → Prop) : Program α → Prop
  | done value => good (.ok value)
  | fail failure => good (.error failure)
  | ask _ go => ∀ answer, Ends good (go answer)

/-- A program does not fail, and what it gives is good. -/
def Gives (good : α → Prop) (program : Program α) : Prop :=
  program.Ends fun result => ∃ value, result = .ok value ∧ good value

/-- A program fails with a problem. -/
def Reports (problem : Problem) (program : Program α) : Prop :=
  program.Ends fun result => result = .error (.reported problem)

lemma Ends.run {good : Except Failure α → Prop} {program : Program α} (h : program.Ends good)
    (answer : (request : Request) → σ → request.Answer × σ) (state : σ) :
    good (program.run answer state).1 := by
  induction program generalizing state with
  | done value => exact h
  | fail failure => exact h
  | ask request go ih => exact ih _ (h _) _

lemma Gives.bind {given : α → Prop} {good : Except Failure β → Prop} {program : Program α}
    {next : α → Program β} (h : program.Gives given)
    (hnext : ∀ value, given value → (next value).Ends good) : (program >>= next).Ends good := by
  induction program with
  | done value =>
    obtain ⟨_, ⟨⟩, hgiven⟩ := h
    exact hnext value hgiven
  | fail failure =>
    obtain ⟨_, hnever, -⟩ := h
    cases hnever
  | ask request go ih => exact fun answer => ih answer (h answer)

lemma Reports.bind {program : Program α} (h : program.Reports problem) (next : α → Program β) :
    (program >>= next).Reports problem := by
  induction program with
  | done value => cases h
  | fail failure => exact congrArg Except.error (Except.error.inj h)
  | ask request go ih => exact fun answer => ih answer (h answer)

lemma run_tryCatch (answer : (request : Request) → σ → request.Answer × σ)
    (program : Program α) (handle : Failure → Program α) (state : σ) :
    run answer (tryCatch program handle) state =
      match run answer program state with
      | (.ok value, state) => (.ok value, state)
      | (.error failure, state) => run answer (handle failure) state := by
  induction program generalizing state with
  | done value => rfl
  | fail failure => rfl
  | ask request go ih => exact ih _ _

end Chronicle.Program
