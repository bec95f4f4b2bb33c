import Chronicle.Proofs.Assembly.Parts

/-!
The calls that assembling makes.

The operations that assembling depends on may do anything: their answers may depend on all that was
asked before, and each call may fail, with a problem or in a crash. They are therefore taken in a monad
with failures over an arbitrary state, and watched: each call is noted down with how it failed, if it
did. Whatever they do, the calls follow one fixed order and end with the first one that fails.
-/

namespace Chronicle.Trace

/-! ### Calls that are noted down -/

/-- An operation that is called, with what it is given besides the run. -/
inductive Operation
  | createTrace (agentId : Bytes)
  | addSpan (options : SpanOptions)
  | addEvent (input : EventInput)
  | closeSpan (status : Status)
  | finalizeTrace
  | createManifest (options : Manifest.Options)

/-- A call, and how it failed if it did. -/
structure Called where
  operation : Operation
  failure : Option Failure

/-- A call that did not fail. -/
def Called.done (operation : Operation) : Called := ⟨operation, none⟩

def failureOf {α : Type} : Except Failure α → Option Failure
  | .ok _ => none
  | .error failure => some failure

variable {σ α β : Type}

/-- Computations that fail or not, over a state. -/
abbrev Fallible (σ : Type) := ExceptT Failure (StateM σ)

/-- The same, with the calls made so far. -/
abbrev Noting (σ : Type) := Fallible (σ × List Called)

/-- What comes out, with the state that is left, also where it fails. -/
def Fallible.outcome (program : Fallible σ α) (state : σ) : Except Failure α × σ :=
  (ExceptT.run program).run state

/-- Does what a call does and notes it down. -/
def noted (operation : Operation) (call : Fallible σ α) : Noting σ α :=
  ExceptT.mk fun (state, calls) =>
    let (result, state) := call.outcome state
    (result, state, calls ++ [⟨operation, failureOf result⟩])

/-- Operations of which every call is noted down. -/
def watched (primitives : Primitives (Fallible σ)) : Primitives (Noting σ) where
  createTrace agentId := noted (.createTrace agentId) (primitives.createTrace agentId)
  addSpan options run := noted (.addSpan options) (primitives.addSpan options run)
  addEvent spanId input run := noted (.addEvent input) (primitives.addEvent spanId input run)
  closeSpan spanId status run := noted (.closeSpan status) (primitives.closeSpan spanId status run)
  finalizeTrace run := noted .finalizeTrace (primitives.finalizeTrace run)
  createManifest bundle options :=
    noted (.createManifest options) (primitives.createManifest bundle options)

/-! ### Following an order -/

/-- The calls made out of an order of operations: all of them, none of which failed, or those up to the
first one that failed. -/
inductive Course (operations : List Operation) : Option Failure → List Called → Prop
  | whole : Course operations none (operations.map .done)
  | cut (before : List Operation) {after : List Operation} {operation : Operation} (failure : Failure)
      (split : operations = before ++ operation :: after) :
      Course operations (some failure) (before.map .done ++ [⟨operation, some failure⟩])

lemma Course.append {front back : List Operation} {outcome : Option Failure}
    {calls : List Called} (h : Course back outcome calls) :
    Course (front ++ back) outcome (front.map .done ++ calls) := by
  cases h with
  | whole =>
    rw [← List.map_append]
    exact .whole
  | cut before failure split =>
    rw [← List.append_assoc, ← List.map_append]
    exact .cut _ failure (by rw [split, List.append_assoc])

lemma Course.extend {front back : List Operation} {failure : Failure} {calls : List Called}
    (h : Course front (some failure) calls) : Course (front ++ back) (some failure) calls := by
  cases h with
  | cut before failure split =>
    exact .cut before failure (by rw [split, List.append_assoc, List.cons_append])

/-- Noted down, a computation gives what it gives without that, makes its calls out of this order, and
fails as its last call does. -/
def Follows (operations : List Operation) (program : Fallible σ α) (noting : Noting σ α) : Prop :=
  ∀ state calls, ∃ made,
    noting.outcome (state, calls) =
      ((program.outcome state).1, (program.outcome state).2, calls ++ made) ∧
    Course operations (failureOf (program.outcome state).1) made

lemma outcome_bind (program : Fallible σ α) (next : α → Fallible σ β) (state : σ) :
    (program >>= next).outcome state =
      match program.outcome state with
      | (.ok value, state) => (next value).outcome state
      | (.error failure, state) => (.error failure, state) := by
  unfold Fallible.outcome ExceptT.run StateT.run
  simp only [bind, ExceptT.bind, ExceptT.mk, StateT.bind, ExceptT.bindCont]
  rcases program state with ⟨failure | value, after⟩ <;> rfl

/-- How computations that fail or not are run. -/
def Fallible.runner (σ : Type) : Runner (Fallible σ) σ where
  run program state := program.outcome state
  run_pure _ _ := rfl
  run_throw _ _ := rfl
  run_bind := outcome_bind
  run_tryCatch program handle state := by
    change Fallible.outcome (ExceptT.tryCatch program handle) state = _
    unfold Fallible.outcome ExceptT.run StateT.run
    simp only [ExceptT.tryCatch, ExceptT.mk, bind, StateT.bind]
    rcases program state with ⟨failure | value, after⟩ <;> rfl

lemma follows_pure (value : α) : Follows [] (pure value : Fallible σ α) (pure value) :=
  fun state calls => ⟨[], by rw [List.append_nil]; rfl, .whole⟩

lemma follows_noted (operation : Operation) (call : Fallible σ α) :
    Follows [operation] call (noted operation call) := by
  intro state calls
  refine ⟨[⟨operation, failureOf (call.outcome state).1⟩], rfl, ?_⟩
  rcases (call.outcome state).1 with failure | value
  · exact .cut [] failure rfl
  · exact .whole

/-- **A sequence follows one order and then another.** -/
theorem Follows.bind {front back : List Operation} {program : Fallible σ α} {noting : Noting σ α}
    {next : α → Fallible σ β} {next' : α → Noting σ β} (h : Follows front program noting)
    (hnext : ∀ value, Follows back (next value) (next' value)) :
    Follows (front ++ back) (program >>= next) (noting >>= next') := by
  intro state calls
  obtain ⟨made, hfirst, hcourse⟩ := h state calls
  rw [outcome_bind, outcome_bind, hfirst]
  generalize program.outcome state = outcome at hcourse
  rcases outcome with ⟨failure | value, between⟩
  · exact ⟨made, rfl, hcourse.extend⟩
  · obtain ⟨made', hsecond, hcourse'⟩ := hnext value between (calls ++ made)
    refine ⟨made ++ made', ?_, ?_⟩
    · rw [← List.append_assoc]
      exact hsecond
    · cases hcourse with
      | whole => exact hcourse'.append

/-! ### The order of assembling -/

/-- The calls for the events of a batch. -/
def eventCalls (settings : AssemblySettings) (events : List Spool.Event) : List Operation :=
  events.map fun event => .addEvent (settings.eventInput event)

/-- All calls for a batch in their order. -/
def protocol (settings : AssemblySettings) (batch : Batch) : List Operation :=
  [.createTrace batch.agentId, .addSpan settings.spanOptions] ++
    eventCalls settings batch.events ++
    [.closeSpan .completed, .finalizeTrace, .createManifest batch.manifestOptions]

variable (primitives : Primitives (Fallible σ)) (settings : AssemblySettings)

lemma follows_addEvents (spanId : Bytes) (events : List Spool.Event) (run : Run) :
    Follows (eventCalls settings events) (addEvents primitives settings spanId events run)
      (addEvents (watched primitives) settings spanId events run) := by
  induction events generalizing run with
  | nil => exact follows_pure run
  | cons event rest ih => exact (follows_noted _ _).bind fun (_, run) => ih run

lemma follows_draft (batch : Batch) :
    Follows (protocol settings batch) (draft primitives settings batch)
      (draft (watched primitives) settings batch) := by
  have hrecord : Follows
      ([.createTrace batch.agentId] ++ ([.addSpan settings.spanOptions] ++
        (eventCalls settings batch.events ++ ([.closeSpan .completed] ++ ([.finalizeTrace] ++ [])))))
      (record primitives settings batch) (record (watched primitives) settings batch) := by
    refine (follows_noted _ _).bind fun run => ?_
    refine (follows_noted _ _).bind fun (root, run) => ?_
    refine (follows_addEvents primitives settings root.id batch.events run).bind fun run => ?_
    refine (follows_noted _ _).bind fun (_, run) => ?_
    exact (follows_noted _ _).bind fun (bundle, _) => follows_pure bundle
  have hdraft := hrecord.bind fun bundle =>
    (follows_noted (.createManifest batch.manifestOptions)
      (primitives.createManifest bundle batch.manifestOptions)).bind fun chunked =>
        follows_pure (Built.of bundle chunked)
  have horder : protocol settings batch = ([.createTrace batch.agentId] ++
      ([.addSpan settings.spanOptions] ++ (eventCalls settings batch.events ++
        ([.closeSpan .completed] ++ ([.finalizeTrace] ++ []))))) ++
      ([.createManifest batch.manifestOptions] ++ []) := by
    simp [protocol]
  rw [horder]
  exact hdraft

/-- **Assembling stops at the first call that fails.** Whatever the operations do, the calls are made in
the order of the protocol: all of them, which are five and one for each event, if none fails, and
otherwise those up to the first one that fails. Then nothing comes out but its failure. -/
theorem assemble_course (batch : Batch) (state : σ) :
    (protocol settings batch).length = batch.events.length + 5 ∧
      ∃ result after calls outcome,
        (assemble primitives settings batch).outcome state = (result, after) ∧
        (assemble (watched primitives) settings batch).outcome (state, []) =
          (result, after, calls) ∧
        Course (protocol settings batch) outcome calls ∧
        ∀ failure, outcome = some failure →
          result = .error (.reported (batch.abortProblem failure)) := by
  refine ⟨by simp [protocol, eventCalls], ?_⟩
  obtain ⟨calls, hdraft, hcourse⟩ := follows_draft primitives settings batch state []
  rw [List.nil_append] at hdraft
  have hresult := (Fallible.runner σ).run_assemble primitives settings batch state
  have hwatched := (Fallible.runner _).run_assemble (watched primitives) settings batch (state, [])
  simp only [Fallible.runner] at hresult hwatched
  rw [hdraft] at hwatched
  refine ⟨_, _, calls, _, hresult, hwatched, hcourse, ?_⟩
  intro failure hfailure
  rcases hgiven : ((draft primitives settings batch).outcome state).1 with failure' | built
  · rw [hgiven] at hfailure
    cases hfailure
    rfl
  · rw [hgiven] at hfailure
    cases hfailure

end Chronicle.Trace
