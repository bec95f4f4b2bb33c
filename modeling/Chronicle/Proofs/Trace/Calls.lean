import Chronicle.Proofs.Trace.WellFormed

/-!
Runs as sequences of calls leave them.

A run is created, and then spans and events are added, spans are closed and the run is finalized, in
any order, with any arguments, and also after a call was refused. Identifiers come with the calls; they
are drawn at random, so that no two are the same. Whatever the calls, the run is well formed.
-/

namespace Chronicle.Trace

/-- An operation on a run, with what it is given and what it draws. -/
inductive Call
  | addSpan (id : Bytes) (now : Int) (options : SpanOptions)
  | addEvent (id : Bytes) (now : Int) (spanId : Bytes) (input : EventInput)
  | closeSpan (now : Int) (spanId : Bytes) (status : Status)
  | finalize (readings : List Int) (now : Int)
  deriving Repr

namespace Call

/-- The identifiers that a call draws. -/
def drawn : Call → List Bytes
  | addSpan id _ _ => [id]
  | addEvent id _ _ _ => [id]
  | closeSpan _ _ _ => []
  | finalize _ _ => []

/-- Why an operation was refused, if it was, and the run it left. -/
def refusal {α : Type} : Except Fault α × Run → Option Fault × Run
  | (.ok _, run) => (none, run)
  | (.error fault, run) => (some fault, run)

/-- Makes a call on a run. -/
def make : Call → Run → Option Fault × Run
  | addSpan id now options, run => refusal (run.addSpan id now options)
  | addEvent id now spanId input, run => refusal (run.addEvent id now spanId input)
  | closeSpan now spanId status, run => refusal (run.closeSpan now spanId status)
  | finalize readings now, run => refusal (run.finalize readings now)

lemma refusal_snd {α : Type} (result : Except Fault α × Run) : (refusal result).2 = result.2 := by
  rcases result with ⟨fault | value, run⟩ <;> rfl

end Call

namespace Run

/-- The run after calls in turn, those that are refused among them. -/
def after (run : Run) (calls : List Call) : Run :=
  calls.foldl (fun run call => (call.make run).2) run

variable {run : Run}

lemma WellFormed.make (h : run.WellFormed) {call : Call} (hnew : ∀ id ∈ call.drawn, id ∉ run.ids) :
    (call.make run).2.WellFormed := by
  cases call with
  | addSpan id now options =>
    rw [Call.make, Call.refusal_snd]
    exact h.addSpan (hnew id List.mem_cons_self) now options
  | addEvent id now spanId input =>
    rw [Call.make, Call.refusal_snd]
    exact h.addEvent (hnew id List.mem_cons_self) now spanId input
  | closeSpan now spanId status =>
    rw [Call.make, Call.refusal_snd]
    exact h.closeSpan now spanId status
  | finalize readings now =>
    rw [Call.make, Call.refusal_snd]
    exact h.finalize readings now

lemma completes_ids {spans spans' : List Span} (h : List.Forall₂ (Completes run) spans spans') :
    spans'.map (·.id) = spans.map (·.id) := by
  induction h with
  | nil => rfl
  | cons hspan _ ih =>
    rw [List.map_cons, List.map_cons, ih]
    rcases hspan with ⟨-, now, rfl⟩ | ⟨-, rfl⟩ <;> rfl

/-- A call brings in no identifiers but those it draws. -/
lemma WellFormed.ids_make (h : run.WellFormed) {call : Call} (hnew : ∀ id ∈ call.drawn, id ∉ run.ids)
    {id : Bytes} (hid : id ∈ (call.make run).2.ids) : id ∈ run.ids ∨ id ∈ call.drawn := by
  cases call with
  | addSpan new now options =>
    rw [Call.make, Call.refusal_snd] at hid
    have hspan : new ∉ run.spans.map (·.id) := fun hmem =>
      hnew new List.mem_cons_self (List.mem_append_left _ hmem)
    rcases addSpan_cases h.span_ids_nodup hspan now options with
      ⟨fault, hrefused⟩ | ⟨-, -, -, hadded⟩
    · rw [hrefused] at hid
      exact Or.inl hid
    · -- Spans and events keep their identifiers; the new span is listed behind the others.
      rw [hadded, ids, List.map_append, (keepsPlace_adopt _).map_id] at hid
      simp only [List.mem_append, List.map_singleton, List.mem_singleton] at hid
      rcases hid with (hid | rfl) | hid
      · exact Or.inl (List.mem_append_left _ hid)
      · exact Or.inr List.mem_cons_self
      · exact Or.inl (List.mem_append_right _ hid)
  | addEvent new now spanId input =>
    rw [Call.make, Call.refusal_snd] at hid
    rcases addEvent_cases h.span_ids_nodup new now spanId input with
      ⟨fault, hrefused⟩ | ⟨-, -, -, hadded⟩
    · rw [hrefused] at hid
      exact Or.inl hid
    · rw [hadded, ids, ((keepsPlace_attach _).changeAt spanId).map_id] at hid
      simp only [List.mem_append, List.map_append, List.map_singleton, List.mem_singleton] at hid
      rcases hid with hid | hid | rfl
      · exact Or.inl (List.mem_append_left _ hid)
      · exact Or.inl (List.mem_append_right _ hid)
      · exact Or.inr List.mem_cons_self
  | closeSpan now spanId status =>
    rw [Call.make, Call.refusal_snd] at hid
    rcases closeSpan_cases h.span_ids_nodup now spanId status with
      ⟨fault, hrefused⟩ | ⟨-, -, hclosed⟩
    · rw [hrefused] at hid
      exact Or.inl hid
    · rw [hclosed, ids, ((keepsPlace_closed run now status).changeAt spanId).map_id] at hid
      exact Or.inl hid
  | finalize readings now =>
    rw [Call.make, Call.refusal_snd] at hid
    rcases finalize_cases h.span_ids_nodup readings now with
      ⟨-, hrefused⟩ | ⟨-, spans', hall, hfinal⟩
    · rw [hrefused] at hid
      exact Or.inl hid
    · rw [hfinal, ids] at hid
      simp only [Run.ended, completes_ids hall] at hid
      exact Or.inl hid

/-- What calls draw is drawn once and is not in a run yet. -/
structure Fresh (run : Run) (calls : List Call) : Prop where
  distinct : (calls.flatMap Call.drawn).Nodup
  new : ∀ id ∈ calls.flatMap Call.drawn, id ∉ run.ids

/-- What is drawn by a first call is new, and what is drawn behind it is new to the run it leaves. -/
lemma Fresh.cons {call : Call} {rest : List Call} (hfresh : run.Fresh (call :: rest))
    (h : run.WellFormed) :
    (∀ id ∈ call.drawn, id ∉ run.ids) ∧ (call.make run).2.Fresh rest := by
  obtain ⟨hdistinct, hnew⟩ := hfresh
  rw [List.flatMap_cons, List.nodup_append] at hdistinct
  obtain ⟨-, hrest, hapart⟩ := hdistinct
  have hcall : ∀ id ∈ call.drawn, id ∉ run.ids := fun id hid =>
    hnew id (List.mem_flatMap.mpr ⟨call, List.mem_cons_self, hid⟩)
  refine ⟨hcall, hrest, fun id hid hmem => ?_⟩
  rcases h.ids_make hcall hmem with hold | hdrawn
  · refine hnew id ?_ hold
    rw [List.flatMap_cons]
    exact List.mem_append_right _ hid
  · exact hapart id hdrawn id hid rfl

/-- **What every call keeps, calls in turn keep**: a property of well-formed runs that each call with
new identifiers keeps holds after all of them. -/
theorem WellFormed.after_ind {P : Run → Prop} (h : run.WellFormed) {calls : List Call}
    (hfresh : run.Fresh calls) (hstart : P run)
    (hmake : ∀ {run : Run} {call : Call}, run.WellFormed → (∀ id ∈ call.drawn, id ∉ run.ids) →
      P run → P (call.make run).2) : (run.after calls).WellFormed ∧ P (run.after calls) := by
  induction calls generalizing run with
  | nil => exact ⟨h, hstart⟩
  | cons call rest ih =>
    obtain ⟨hcall, hrest⟩ := hfresh.cons h
    exact ih (h.make hcall) hrest (hmake h hcall hstart)

lemma WellFormed.after (h : run.WellFormed) {calls : List Call}
    (hdistinct : (calls.flatMap Call.drawn).Nodup)
    (hnew : ∀ id ∈ calls.flatMap Call.drawn, id ∉ run.ids) : (run.after calls).WellFormed :=
  (h.after_ind (P := fun _ => True) ⟨hdistinct, hnew⟩ trivial fun _ _ _ => trivial).1

lemma after_append (run : Run) (calls later : List Call) :
    run.after (calls ++ later) = (run.after calls).after later :=
  List.foldl_append

lemma Fresh.append {calls later : List Call} (hfresh : run.Fresh (calls ++ later))
    (h : run.WellFormed) : run.Fresh calls ∧ (run.after calls).Fresh later := by
  refine ⟨⟨?_, fun id hid => hfresh.new id ?_⟩, ?_⟩
  · exact (List.nodup_append.mp (List.flatMap_append ▸ hfresh.distinct)).1
  · rw [List.flatMap_append]
    exact List.mem_append_left _ hid
  · induction calls generalizing run with
    | nil => exact hfresh
    | cons call rest ih =>
      obtain ⟨hcall, hrest⟩ := hfresh.cons h
      exact ih hrest (h.make hcall)

/-- A run that has just been created has no identifiers yet that could be drawn again. -/
lemma fresh_of_create {id agentId : Bytes} {now : Int} {calls : List Call}
    (created : Run.create id now agentId = .ok run)
    (distinct : (calls.flatMap Call.drawn).Nodup) : run.Fresh calls := by
  obtain ⟨-, hspans, hevents, -⟩ := empty_of_create created
  refine ⟨distinct, fun drawn _ hmem => ?_⟩
  rw [ids, hspans, hevents] at hmem
  cases hmem

end Run

/-- **Every run is well formed.** A run that was created, after any calls with any arguments, also
calls that were refused, is well formed if the identifiers that were drawn are distinct. -/
theorem after_create_wellFormed {id agentId : Bytes} {now : Int} {run : Run} {calls : List Call}
    (created : Run.create id now agentId = .ok run)
    (distinct : (calls.flatMap Call.drawn).Nodup) : (run.after calls).WellFormed := by
  refine (Run.create_wellFormed created).after distinct fun drawn _ => ?_
  unfold Run.create at created
  split at created
  · cases created
  · cases created
    exact List.not_mem_nil

/-- A span below another, events in both, an event for a span that does not exist, and a closed span
before the run ends. -/
def nestedCalls : List Call :=
  [.addSpan [1] 10 { name := [97] }, .addEvent [2] 11 [1] {},
    .addSpan [3] 12 { name := [98], parentSpanId := some [1] }, .addEvent [4] 13 [9] {},
    .addEvent [5] 14 [3] {}, .closeSpan 15 [3] .failed, .addEvent [6] 16 [1] {},
    .finalize [17, 18] 19]

theorem nestedCalls_wellFormed :
    ∃ run, Run.create [0] 9 [97] = .ok run ∧ (nestedCalls.flatMap Call.drawn).Nodup ∧
      (run.after nestedCalls).WellFormed := by
  have created : Run.create [0] 9 [97] = .ok _ := rfl
  exact ⟨_, created, by decide, after_create_wellFormed created (by decide)⟩

end Chronicle.Trace
