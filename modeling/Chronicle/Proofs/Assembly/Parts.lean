import Chronicle.Trace.Assembly
import Mathlib.Tactic.Lemma

/-!
The parts of assembling.

First a batch is recorded below one span, then a manifest is made for its bundle; these parts make all
calls. What is left makes none: it judges what the calls gave, and turns a failure into a problem. So
what comes out follows from what the calls gave, in whatever way they are run.
-/

namespace Chronicle.Trace

/-- How the bundle of a batch is cut into chunks. -/
def Batch.manifestOptions (batch : Batch) : Manifest.Options where
  chunkSize := batch.chunkSize.getD defaultChunkSize

/-- A bundle with the manifest made for it. -/
def Built.of (bundle : Bundle) (chunked : Manifest.Chunked) : Built where
  bundle := { bundle with manifestHash := some chunked.manifest.manifestHash }
  manifest := chunked.manifest
  chunks := chunked.chunks

section

variable {m : Type → Type} [Monad m] (primitives : Primitives m) (settings : AssemblySettings)
  (batch : Batch)

/-- The first part: a batch is recorded below one span, and the run is finalized. -/
def record : m Bundle := do
  let run ← primitives.createTrace batch.agentId
  let (root, run) ← primitives.addSpan settings.spanOptions run
  let run ← addEvents primitives settings root.id batch.events run
  let (_, run) ← primitives.closeSpan root.id .completed run
  let (bundle, _) ← primitives.finalizeTrace run
  return bundle

/-- The part with all calls: a manifest is made for what was recorded. -/
def draft : m Built := do
  let bundle ← record primitives settings batch
  let chunked ← primitives.createManifest bundle batch.manifestOptions
  return .of bundle chunked

variable [MonadExceptOf Failure m]

/-- The last part: what was built is thrown away if it does not agree. -/
def judge (built : Built) : m Built :=
  match built.fault? with
  | some fault => throw (.reported fault.problem)
  | none => return built

lemma assembleUnguarded_eq [LawfulMonad m] :
    assembleUnguarded primitives settings batch = draft primitives settings batch >>= judge := by
  simp only [assembleUnguarded, draft, record, bind_assoc, pure_bind]
  rfl

end

/-! ### What comes out -/

/-- What is reported when a call fails: its own problem, or, where it crashed, a problem that names the
agent and the text of the crash. -/
def Batch.abortProblem (batch : Batch) : Failure → Problem
  | .reported problem => problem
  | .crashed text =>
    { category := .internal
      message := utf8 "Trace build failed for agent " ++ batch.agentId ++ utf8 ": " ++ text
      code := utf8 "trace_build_failed" }

/-- What assembling makes of what the calls gave. -/
def Batch.concluded (batch : Batch) : Except Failure Built → Except Failure Built
  | .error failure => .error (.reported (batch.abortProblem failure))
  | .ok built =>
    match built.fault? with
    | some fault => .error (.reported fault.problem)
    | none => .ok built

/-- A way to run computations that may fail, from a state. -/
structure Runner (m : Type → Type) [Monad m] [MonadExceptOf Failure m] (σ : Type) where
  run : {α : Type} → m α → σ → Except Failure α × σ
  run_pure : ∀ {α : Type} (value : α) (state : σ), run (pure value) state = (.ok value, state)
  run_throw : ∀ {α : Type} (failure : Failure) (state : σ),
    run (throw failure : m α) state = (.error failure, state)
  run_bind : ∀ {α β : Type} (program : m α) (next : α → m β) (state : σ),
    run (program >>= next) state =
      match run program state with
      | (.ok value, state) => run (next value) state
      | (.error failure, state) => (.error failure, state)
  run_tryCatch : ∀ {α : Type} (program : m α) (handle : Failure → m α) (state : σ),
    run (tryCatch program handle) state =
      match run program state with
      | (.ok value, state) => (.ok value, state)
      | (.error failure, state) => run (handle failure) state

/-- **What comes out follows from what the calls gave**, and they are the last to change the state. -/
theorem Runner.run_assemble {m : Type → Type} [Monad m] [LawfulMonad m] [MonadExceptOf Failure m]
    {σ : Type} (runner : Runner m σ) (primitives : Primitives m) (settings : AssemblySettings)
    (batch : Batch) (state : σ) :
    runner.run (assemble primitives settings batch) state =
      (batch.concluded (runner.run (draft primitives settings batch) state).1,
        (runner.run (draft primitives settings batch) state).2) := by
  rw [assemble, runner.run_tryCatch, assembleUnguarded_eq, runner.run_bind]
  rcases runner.run (draft primitives settings batch) state with ⟨(problem | text) | built, after⟩
  · exact runner.run_throw _ after
  · exact runner.run_throw _ after
  · simp only [judge, Batch.concluded]
    rcases built.fault? with _ | fault
    · simp only [runner.run_pure]
    · simp only [runner.run_throw]

end Chronicle.Trace
