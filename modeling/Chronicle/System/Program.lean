import Chronicle.System.Request
import Chronicle.Problem

/-!
Programs as trees of requests.

A program is done with a value, has failed, or asks something and goes on according to the answer. It
says nothing about who answers: a host that is a value answers in `System.Host`, and the command line
answers from the real system.
-/

namespace Chronicle

inductive Program (α : Type) : Type
  | done (value : α)
  | fail (failure : Failure)
  | ask (request : Request) (next : request.Answer → Program α)

namespace Program

variable {α β : Type}

/-- Goes on with another program where a program is done. -/
def andThen : Program α → (α → Program β) → Program β
  | done value, next => next value
  | fail failure, _ => fail failure
  | ask request go, next => ask request fun answer => andThen (go answer) next

/-- Goes on with another program where a program has failed. -/
def recover : Program α → (Failure → Program α) → Program α
  | done value, _ => done value
  | fail failure, handle => handle failure
  | ask request go, handle => ask request fun answer => recover (go answer) handle

instance : Monad Program where
  pure := done
  bind := andThen

instance : MonadExceptOf Failure Program where
  throw := fail
  tryCatch := recover

/-- One request. -/
def request (request : Request) : Program request.Answer := ask request done

/-- Turns a reported problem into a value; a crash goes on unwinding. -/
def attempt : Program α → Program (Except Problem α)
  | done value => done (.ok value)
  | fail (.reported problem) => done (.error problem)
  | fail (.crashed text) => fail (.crashed text)
  | ask request go => ask request fun answer => attempt (go answer)

/-- Fails with a problem. -/
def report (problem : Problem) : Program α := fail (.reported problem)

/-- The value of a result, or a failure with its problem. -/
def ofResult {ε : Type} (problem : ε → Problem) : Except ε α → Program α
  | .ok value => done value
  | .error cause => report (problem cause)

/-- Runs a program against answers that come from a state. -/
def run {σ : Type} (answer : (request : Request) → σ → request.Answer × σ) :
    Program α → σ → Except Failure α × σ
  | done value, state => (.ok value, state)
  | fail failure, state => (.error failure, state)
  | ask request go, state => run answer (go (answer request state).1) (answer request state).2

/-! ### Laws -/

theorem pure_eq (value : α) : (pure value : Program α) = done value := rfl

@[simp] theorem done_bind (value : α) (next : α → Program β) : done value >>= next = next value := rfl

@[simp] theorem fail_bind (failure : Failure) (next : α → Program β) :
    fail failure >>= next = fail failure := rfl

@[simp] theorem ask_bind (request : Request) (go : request.Answer → Program α)
    (next : α → Program β) : ask request go >>= next = ask request fun answer => go answer >>= next :=
  rfl

theorem andThen_done (program : Program α) : andThen program done = program := by
  induction program with
  | done value => rfl
  | fail failure => rfl
  | ask request go ih => simp only [andThen]; congr; funext answer; exact ih answer

theorem andThen_assoc {γ : Type} (program : Program α) (f : α → Program β) (g : β → Program γ) :
    andThen (andThen program f) g = andThen program fun value => andThen (f value) g := by
  induction program with
  | done value => rfl
  | fail failure => rfl
  | ask request go ih => simp only [andThen]; congr; funext answer; exact ih answer

instance : LawfulMonad Program :=
  LawfulMonad.mk' Program andThen_done (fun _ _ => rfl) andThen_assoc

theorem run_bind {σ : Type} (answer : (request : Request) → σ → request.Answer × σ)
    (program : Program α) (next : α → Program β) (state : σ) :
    run answer (program >>= next) state =
      match run answer program state with
      | (.ok value, state) => run answer (next value) state
      | (.error failure, state) => (.error failure, state) := by
  induction program generalizing state with
  | done value => rfl
  | fail failure => rfl
  | ask request go ih => exact ih _ _

theorem run_attempt {σ : Type} (answer : (request : Request) → σ → request.Answer × σ)
    (program : Program α) (state : σ) :
    run answer program.attempt state =
      match run answer program state with
      | (.ok value, state) => (.ok (.ok value), state)
      | (.error (.reported problem), state) => (.ok (.error problem), state)
      | (.error (.crashed text), state) => (.error (.crashed text), state) := by
  induction program generalizing state with
  | done value => rfl
  | fail failure => cases failure <;> rfl
  | ask request go ih => exact ih _ _

/-! ### Shorthands -/

def log (level : Log.Level) (message : Bytes) : Program Unit := request (.log level message)
def logDebug (message : Bytes) : Program Unit := log .debug message
def logInfo (message : Bytes) : Program Unit := log .info message
def logWarning (message : Bytes) : Program Unit := log .warning message
def logError (message : Bytes) : Program Unit := log .error message

end Program

end Chronicle
