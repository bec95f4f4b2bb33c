import Chronicle.Proofs.Trace.Attached
import Chronicle.Proofs.Trace.Calls

/-!
Spans that are over are frozen, and their hashes stay true.

The hash of a span is taken once, when the span is closed, and covers fields that operations on other
spans write to: the children it lists, the events it lists. What a call does to the spans of a run is
therefore said span by span. It leaves a span alone, or the span was running; if it is not running any
more, its hash is taken of it as it stands. No call writes to a span that is over, and events that come
later are attached to others.
-/

namespace Chronicle.Trace

namespace Run

variable {run run' : Run} {span : Span}

/-- The hash of a span is that of the span as it stands, with the hashes of its events. -/
def HashTrue (run : Run) (span : Span) : Prop :=
  span.hash = some (spanHash span ((run.eventsOf span).map (·.hash)))

/-- What may become of a span: nothing, or, as long as it is running, something that is running or has
a true hash. -/
inductive Becomes (run' : Run) : Span → Span → Prop
  | same (span : Span) : Becomes run' span span
  | changed {span span' : Span} (running : span.status = .running)
      (hash_true : span'.status ≠ .running → run'.HashTrue span') : Becomes run' span span'

/-- What a call may do to a run: events of other identifiers are listed behind those of before, spans
become what they may, and running spans are listed behind them. -/
structure Advances (run run' : Run) : Prop where
  events : run.events <+: run'.events
  event_ids_nodup : (run'.events.map (·.id)).Nodup
  spans : ∃ old new, run'.spans = old ++ new ∧ List.Forall₂ (Becomes run') run.spans old ∧
    ∀ span ∈ new, span.status = .running

lemma advances_refl (hids : (run.events.map (·.id)).Nodup) : Advances run run :=
  ⟨List.prefix_rfl, hids, run.spans, [], (List.append_nil _).symm,
    List.forall₂_same.mpr fun span _ => .same span, fun _ h => absurd h List.not_mem_nil⟩

lemma advances_of_map {change : Span → Span} {new : List Span} (hevents : run.events <+: run'.events)
    (hids : (run'.events.map (·.id)).Nodup) (hspans : run'.spans = run.spans.map change ++ new)
    (hchange : ∀ span ∈ run.spans, Becomes run' span (change span))
    (hnew : ∀ span ∈ new, span.status = .running) : Advances run run' :=
  ⟨hevents, hids, _, new, hspans,
    List.forall₂_map_right_iff.mpr (List.forall₂_same.mpr hchange), hnew⟩

/-! ### The operations -/

/-- Where identifiers are distinct, a span that is found running is the only one of its identifier. -/
lemma running_of_id (hids : (run.spans.map (·.id)).Nodup) {id : Bytes}
    (hopen : ∃ above ∈ run.spans, above.id = id ∧ above.status = .running)
    (hspan : span ∈ run.spans) (hid : span.id = id) : span.status = .running := by
  obtain ⟨above, habove, rfl, hrunning⟩ := hopen
  rwa [List.inj_on_of_nodup_map hids hspan habove hid]

lemma adopt_status (child span : Span) : (adopt child span).status = span.status := by
  unfold adopt
  split <;> rfl

lemma WellFormed.advances_addSpan (h : run.WellFormed) (hids : (run.events.map (·.id)).Nodup)
    {id : Bytes} (hnew : id ∉ run.spans.map (·.id)) (now : Int) (options : SpanOptions) :
    Advances run (run.addSpan id now options).2 := by
  rcases addSpan_cases h.span_ids_nodup hnew now options with
    ⟨fault, hrefused⟩ | ⟨-, -, hparent, hadded⟩
  · rw [hrefused]
    exact advances_refl hids
  rw [hadded]
  refine advances_of_map List.prefix_rfl hids rfl (fun span hspan => ?_) fun span hspan => ?_
  · by_cases habove : options.parentSpanId = some span.id
    · have hrunning := running_of_id h.span_ids_nodup (hparent _ habove) hspan rfl
      exact .changed hrunning fun hover => absurd ((adopt_status _ _).trans hrunning) hover
    · have hkeep : adopt (run.newSpan id now options) span = span := if_neg habove
      rw [hkeep]
      exact .same span
  · rw [List.mem_singleton.mp hspan]
    rfl

lemma becomes_changeAt (hids : (run.spans.map (·.id)).Nodup) {id : Bytes}
    (hopen : ∃ above ∈ run.spans, above.id = id ∧ above.status = .running)
    {change : Span → Span} (hspan : span ∈ run.spans)
    (hchange : span.status = .running → (change span).status ≠ .running →
      run'.HashTrue (change span)) : Becomes run' span (changeAt id change span) := by
  by_cases hid : span.id = id
  · have hrunning := running_of_id hids hopen hspan hid
    rw [changeAt, if_pos hid]
    exact .changed hrunning (hchange hrunning)
  · rw [changeAt, if_neg hid]
    exact .same span

lemma WellFormed.advances_addEvent (h : run.WellFormed) (hids : (run.events.map (·.id)).Nodup)
    {id : Bytes} (hnew : id ∉ run.events.map (·.id)) (now : Int) (spanId : Bytes)
    (input : EventInput) :
    Advances run (run.addEvent id now spanId input).2 := by
  rcases addEvent_cases h.span_ids_nodup id now spanId input with
    ⟨fault, hrefused⟩ | ⟨-, -, hopen, hadded⟩
  · rw [hrefused]
    exact advances_refl hids
  rw [hadded]
  have hids' : ((run.events ++ [run.newEvent id now input]).map (·.id)).Nodup := by
    rw [List.map_append, List.map_singleton]
    exact hids.append (List.nodup_singleton _) (List.disjoint_singleton.mpr hnew)
  refine advances_of_map (List.prefix_append _ _) hids' (List.append_nil _).symm
    (fun span hspan => ?_) fun _ h => absurd h List.not_mem_nil
  exact becomes_changeAt h.span_ids_nodup hopen hspan fun hrunning hover => absurd hrunning hover

/-- The hash that closing gives to a span is true, also when the run goes on to close others. -/
lemma WellFormed.closed_hashTrue (h : run.WellFormed) (hids : (run.events.map (·.id)).Nodup)
    (hspan : span ∈ run.spans) (now : Int) (status : Status) (hevents : run'.events = run.events) :
    run'.HashTrue (run.closed now status span) := by
  have hlisted : run'.eventsOf (run.closed now status span) = run.eventsOf span := by
    rw [eventsOf, hevents]
    rfl
  rw [HashTrue, hlisted, ← h.eventHashes_eq hids hspan]
  rfl

lemma WellFormed.advances_closeSpan (h : run.WellFormed) (hids : (run.events.map (·.id)).Nodup)
    (now : Int) (spanId : Bytes) (status : Status) :
    Advances run (run.closeSpan now spanId status).2 := by
  rcases closeSpan_cases h.span_ids_nodup now spanId status with
    ⟨fault, hrefused⟩ | ⟨-, hopen, hclosed⟩
  · rw [hrefused]
    exact advances_refl hids
  rw [hclosed]
  refine advances_of_map List.prefix_rfl hids (List.append_nil _).symm
    (fun span hspan => ?_) fun _ h => absurd h List.not_mem_nil
  exact becomes_changeAt h.span_ids_nodup hopen hspan fun _ _ =>
    h.closed_hashTrue hids hspan now status rfl

lemma WellFormed.advances_finalize (h : run.WellFormed) (hids : (run.events.map (·.id)).Nodup)
    (readings : List Int) (now : Int) : Advances run (run.finalize readings now).2 := by
  rcases finalize_cases h.span_ids_nodup readings now with
    ⟨-, hrefused⟩ | ⟨-, spans', hall, hfinal⟩
  · rw [hrefused]
    exact advances_refl hids
  rw [hfinal]
  refine ⟨List.prefix_rfl, hids, spans', [], (List.append_nil _).symm, ?_,
    fun _ h => absurd h List.not_mem_nil⟩
  refine List.Forall₂.imp ?_ ((List.forall₂_and_left ..).mpr ⟨fun _ h => h, hall⟩)
  rintro span span' ⟨hspan, ⟨hrunning, now', rfl⟩ | ⟨-, rfl⟩⟩
  · exact .changed hrunning fun _ => h.closed_hashTrue hids hspan now' .completed rfl
  · exact .same span'

/-! ### Calls -/

/-- A run that is well formed, in which events have distinct identifiers and all hashes are true. -/
structure Sound (run : Run) : Prop extends run.WellFormed where
  event_ids_nodup : (run.events.map (·.id)).Nodup
  hash_true : ∀ span ∈ run.spans, span.status ≠ .running → run.HashTrue span

lemma Sound.advances (h : run.Sound) {call : Call} (hnew : ∀ id ∈ call.drawn, id ∉ run.ids) :
    Advances run (call.make run).2 := by
  cases call with
  | addSpan id now options =>
    rw [Call.make, Call.refusal_snd]
    exact h.advances_addSpan h.event_ids_nodup
      (fun hid => hnew id List.mem_cons_self (List.mem_append_left _ hid)) now options
  | addEvent id now spanId input =>
    rw [Call.make, Call.refusal_snd]
    exact h.advances_addEvent h.event_ids_nodup
      (fun hid => hnew id List.mem_cons_self (List.mem_append_right _ hid)) now spanId input
  | closeSpan now spanId status =>
    rw [Call.make, Call.refusal_snd]
    exact h.advances_closeSpan h.event_ids_nodup now spanId status
  | finalize readings now =>
    rw [Call.make, Call.refusal_snd]
    exact h.advances_finalize h.event_ids_nodup readings now

lemma exists_of_forall₂ {α : Type} {R : α → α → Prop} {as bs : List α} (h : List.Forall₂ R as bs)
    {i : Nat} {a : α} (ha : as[i]? = some a) : ∃ b, bs[i]? = some b ∧ R a b := by
  induction h generalizing i with
  | nil => simp at ha
  | cons hab _ ih =>
    cases i with
    | zero => exact ⟨_, rfl, Option.some.inj ha ▸ hab⟩
    | succ i => exact ih ha

lemma Advances.frozen (h : Advances run run') {i : Nat} (hspan : run.spans[i]? = some span)
    (hover : span.status ≠ .running) : run'.spans[i]? = some span := by
  obtain ⟨old, new, hspans, hold, -⟩ := h.spans
  obtain ⟨span', hspan', hbecomes⟩ := exists_of_forall₂ hold hspan
  have hplace : run'.spans[i]? = some span' := by
    rw [hspans, List.getElem?_append_left (List.getElem?_eq_some_iff.mp hspan').1, hspan']
  cases hbecomes with
  | same => exact hplace
  | changed hrunning => exact absurd hrunning hover

lemma Sound.hash_true_of_advances (h : run.Sound) (hadvances : Advances run run') :
    ∀ span ∈ run'.spans, span.status ≠ .running → run'.HashTrue span := by
  obtain ⟨hevents, hids, old, new, hspans, hold, hnew⟩ := hadvances
  intro span hspan hover
  rw [hspans] at hspan
  rcases List.mem_append.mp hspan with hspan | hspan
  · obtain ⟨i, hi⟩ := List.getElem?_of_mem hspan
    obtain ⟨before, hbefore, hbecomes⟩ := exists_of_forall₂ hold.flip hi
    cases hbecomes with
    | same =>
      have hmem := List.mem_of_getElem? hbefore
      rw [HashTrue, h.eventsOf_of_prefix hids hevents hmem]
      exact h.hash_true span hmem hover
    | changed _ htrue => exact htrue hover
  · exact absurd (hnew span hspan) hover

/-- **A call keeps hashes true**, and what is over as it is. -/
theorem Sound.make (h : run.Sound) {call : Call} (hnew : ∀ id ∈ call.drawn, id ∉ run.ids) :
    (call.make run).2.Sound where
  toWellFormed := h.toWellFormed.make hnew
  event_ids_nodup := (h.advances hnew).event_ids_nodup
  hash_true := h.hash_true_of_advances (h.advances hnew)

lemma create_sound {id agentId : Bytes} {now : Int} (created : Run.create id now agentId = .ok run) :
    run.Sound := by
  obtain ⟨-, hspans, hevents, -⟩ := empty_of_create created
  refine ⟨create_wellFormed created, ?_, ?_⟩
  · rw [hevents]
    exact List.nodup_nil
  · rw [hspans]
    exact fun _ h => absurd h List.not_mem_nil

lemma Sound.after (h : run.Sound) {calls : List Call} (hfresh : run.Fresh calls) :
    (run.after calls).Sound :=
  (h.after_ind hfresh h fun _ hnew hsound => hsound.make hnew).2

lemma Sound.after_frozen (h : run.Sound) {calls : List Call} (hfresh : run.Fresh calls) {i : Nat}
    (hspan : run.spans[i]? = some span) (hover : span.status ≠ .running) :
    (run.after calls).spans[i]? = some span := by
  refine (h.after_ind (P := fun run => run.Sound ∧ run.spans[i]? = some span) hfresh ⟨h, hspan⟩
    fun _ hnew hkept => ?_).2.2
  exact ⟨hkept.1.make hnew, (hkept.1.advances hnew).frozen hkept.2 hover⟩

end Run

open Run in
/-- **What is over is frozen, and its hash is true.** A span that is not running any more, after any
calls with any arguments, is in its place as it is after any later calls, and its hash is that of the
span with the hashes of its events. These are the events that it lists, in the order of their numbers,
and calls that come later add none. -/
theorem closed_span_frozen {id agentId : Bytes} {now : Int} {run : Run} {calls later : List Call}
    (created : Run.create id now agentId = .ok run)
    (distinct : ((calls ++ later).flatMap Call.drawn).Nodup) {i : Nat} {span : Span}
    (in_place : (run.after calls).spans[i]? = some span) (not_running : span.status ≠ .running) :
    (run.after (calls ++ later)).spans[i]? = some span ∧
      span.hash =
        some (spanHash span (((run.after (calls ++ later)).eventsOf span).map (·.hash))) ∧
      ((run.after (calls ++ later)).eventsOf span).map (·.id) = span.eventIds ∧
      ((run.after (calls ++ later)).eventsOf span).Pairwise fun a b => a.seq < b.seq := by
  have hcreated := create_sound created
  have hfresh := fresh_of_create created distinct
  obtain ⟨hcalls, hlater⟩ := hfresh.append hcreated.toWellFormed
  have hsound := hcreated.after hfresh
  have hplace : (run.after (calls ++ later)).spans[i]? = some span := by
    rw [after_append]
    exact (hcreated.after hcalls).after_frozen hlater in_place not_running
  have hmem := List.mem_of_getElem? hplace
  exact ⟨hplace, hsound.hash_true span hmem not_running,
    hsound.map_id_eventsOf hsound.event_ids_nodup hmem, hsound.eventsOf_sorted span⟩

/-- The span below is closed by the sixth of the nested calls, with one event; another event and the end
of the run come later. -/
theorem closed_span_frozen_nestedCalls :
    ∃ run span, Run.create [0] 9 [97] = .ok run ∧ (nestedCalls.flatMap Call.drawn).Nodup ∧
      (run.after (nestedCalls.take 6)).spans[1]? = some span ∧ span.status ≠ .running ∧
      (run.after nestedCalls).spans[1]? = some span ∧
      span.hash = some (spanHash span (((run.after nestedCalls).eventsOf span).map (·.hash))) := by
  have created : Run.create [0] 9 [97] = .ok _ := rfl
  have distinct : ((nestedCalls.take 6 ++ nestedCalls.drop 6).flatMap Call.drawn).Nodup := by decide
  obtain ⟨hplace, hhash, -, -⟩ := closed_span_frozen created distinct (i := 1) rfl (by decide)
  exact ⟨_, _, created, distinct, rfl, by decide, hplace, hhash⟩

end Chronicle.Trace
