import Chronicle.Proofs.System.Ends
import Chronicle.Proofs.System.Stops

/-!
Crashes, and programs that have none.

A crash unwinds a program up to where it is caught, and most programs do not catch any. A sequence crashes
where its first part does, or where its second part does after the first one is done. A program that does
not crash, however its requests are answered, adds no crash to a sequence.
-/

namespace Chronicle.Program

variable {α β : Type} {host : Host}

/-- A program that is started on a host crashes. -/
def CrashesOn (program : Program α) (host : Host) : Prop :=
  ∃ text, (program.runOn host).1 = .error (.crashed text)

/-- A program gives a value or reports a problem, whatever the answers to its requests. -/
def Safe (program : Program α) : Prop :=
  program.Ends fun result => ∀ text, result ≠ .error (.crashed text)

lemma Safe.not_crashesOn {program : Program α} (h : program.Safe) (host : Host) :
    ¬ program.CrashesOn host := by
  rintro ⟨text, hcrash⟩
  exact h.run Host.answer host text hcrash

lemma safe_done (value : α) : (Program.done value).Safe := fun _ h => by cases h

lemma safe_report (problem : Problem) : (report problem : Program α).Safe := fun _ h => by cases h

lemma safe_request (request : Request) : (Program.request request).Safe :=
  fun answer => safe_done answer

lemma safe_ofResult {ε : Type} (problem : ε → Problem) (result : Except ε α) :
    (ofResult problem result).Safe := by
  cases result with
  | ok value => exact safe_done value
  | error cause => exact safe_report _

lemma Safe.bind {program : Program α} {next : α → Program β} (h : program.Safe)
    (hnext : ∀ value, (next value).Safe) : (program >>= next).Safe := by
  induction program with
  | done value => exact hnext value
  | fail failure => exact fun text hcrash => h text (congrArg Except.error (Except.error.inj hcrash))
  | ask request go ih => exact fun answer => ih answer (h answer)

lemma safe_ofResult_bind {ε : Type} {problem : ε → Problem} {result : Except ε α} {next : α → Program β}
    (h : ∀ value, result = .ok value → (next value).Safe) : (ofResult problem result >>= next).Safe := by
  cases result with
  | ok value => exact h value rfl
  | error cause => exact safe_report (problem cause)

/-- **A sequence crashes** in its first part, or in its second part after the first one is done. -/
theorem crashesOn_bind {program : Program α} {next : α → Program β} :
    (program >>= next).CrashesOn host ↔ program.CrashesOn host ∨
      ∃ value between, program.runOn host = (.ok value, between) ∧ (next value).CrashesOn between := by
  unfold CrashesOn
  rw [runOn_bind]
  rcases program.runOn host with ⟨failure | value, between⟩
  · simp
  · constructor
    · exact fun hcrash => Or.inr ⟨value, between, rfl, hcrash⟩
    · rintro (⟨text, hfirst⟩ | ⟨_, _, ⟨⟩, hcrash⟩)
      · cases hfirst
      · exact hcrash

lemma crashesOn_bind_of_ok {program : Program α} {next : α → Program β} {value : α} {between : Host}
    (h : program.runOn host = (.ok value, between)) :
    (program >>= next).CrashesOn host ↔ (next value).CrashesOn between := by
  unfold CrashesOn
  rw [runOn_bind, h]

lemma crashesOn_ofResult_bind {ε : Type} {problem : ε → Problem} {result : Except ε α}
    {next : α → Program β} :
    (ofResult problem result >>= next).CrashesOn host ↔
      ∃ value, result = .ok value ∧ (next value).CrashesOn host := by
  cases result with
  | ok value =>
    constructor
    · exact fun hcrash => ⟨value, rfl, hcrash⟩
    · rintro ⟨_, ⟨⟩, hcrash⟩
      exact hcrash
  | error cause =>
    refine iff_of_false ((safe_report _).not_crashesOn host) ?_
    rintro ⟨_, ⟨⟩, -⟩

lemma crashesOn_bind_of_safe {program : Program α} {next : α → Program β}
    (h : ∀ value, (next value).Safe) :
    (program >>= next).CrashesOn host ↔ program.CrashesOn host := by
  rw [crashesOn_bind, or_iff_left]
  rintro ⟨value, between, -, hcrash⟩
  exact (h value).not_crashesOn between hcrash

end Chronicle.Program
