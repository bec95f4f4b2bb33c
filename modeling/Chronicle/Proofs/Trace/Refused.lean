import Chronicle.Proofs.Trace.Calls

/-!
Calls that are refused, and runs that refuse every call.

Adding a span or an event and closing a span look at the run before they write to it. Finalizing does
not: it has closed some spans before it asks for the next one to be closed, and would give up halfway if
that were refused. It never is, because spans have distinct identifiers. Nor does closing a span ask
whether the run is finalized. That it is refused then as well rests on what finalizing has left, a run
without a running span.
-/

namespace Chronicle.Trace

namespace Run

variable {run left : Run} {fault : Fault}

/-! ### Refused calls -/

lemma addSpan_refused {id : Bytes} {now : Int} {options : SpanOptions}
    (h : run.addSpan id now options = (.error fault, left)) : left = run := by
  unfold addSpan at h
  split at h
  · exact (congrArg Prod.snd h).symm
  · cases h

lemma addEvent_refused {id : Bytes} {now : Int} {spanId : Bytes} {input : EventInput}
    (h : run.addEvent id now spanId input = (.error fault, left)) : left = run := by
  unfold addEvent at h
  split at h
  · exact (congrArg Prod.snd h).symm
  · cases h

lemma closeSpan_refused {now : Int} {spanId : Bytes} {status : Status}
    (h : run.closeSpan now spanId status = (.error fault, left)) : left = run := by
  unfold closeSpan at h
  split at h
  · exact (congrArg Prod.snd h).symm
  · split at h
    · exact (congrArg Prod.snd h).symm
    · split at h
      · exact (congrArg Prod.snd h).symm
      · cases h

lemma WellFormed.finalize_refused (h : run.WellFormed) {readings : List Int} {now : Int}
    (hrefused : run.finalize readings now = (.error fault, left)) : left = run := by
  rcases finalize_cases h.span_ids_nodup readings now with ⟨-, hfinal⟩ | ⟨-, spans', -, hfinal⟩
  · rw [hfinal] at hrefused
    exact (congrArg Prod.snd hrefused).symm
  · rw [hfinal] at hrefused
    cases hrefused

end Run

lemma Call.refusal_eq_some {α : Type} {result : Except Fault α × Run} {fault : Fault} {left : Run} :
    refusal result = (some fault, left) ↔ result = (.error fault, left) := by
  rcases result with ⟨fault' | value, run⟩
  · simp [refusal]
  · simp [refusal]

namespace Run

variable {run left : Run} {fault : Fault}

/-- **A refused call changes nothing**, whatever it was given and whatever it drew. -/
theorem WellFormed.make_refused (h : run.WellFormed) {call : Call}
    (hrefused : call.make run = (some fault, left)) : left = run := by
  cases call with
  | addSpan id now options => exact addSpan_refused (Call.refusal_eq_some.mp hrefused)
  | addEvent id now spanId input => exact addEvent_refused (Call.refusal_eq_some.mp hrefused)
  | closeSpan now spanId status => exact closeSpan_refused (Call.refusal_eq_some.mp hrefused)
  | finalize readings now => exact h.finalize_refused (Call.refusal_eq_some.mp hrefused)

/-! ### Finalized runs -/

lemma closeSpan_of_over (hover : ∀ span ∈ run.spans, span.status ≠ .running) (now : Int)
    (spanId : Bytes) (status : Status) :
    ∃ fault, fault.category = .trace ∧ run.closeSpan now spanId status = (.error fault, run) := by
  unfold closeSpan
  rcases hfound : run.span? spanId with _ | span
  · exact ⟨.unknownSpan spanId, rfl, rfl⟩
  · have hstatus : span.status ≠ .running := hover span (span?_eq_some hfound).1
    exact ⟨.closedTwice spanId span.status, rfl, if_pos hstatus⟩

/-- **A finalized run refuses every call**, for a reason that lies in the trace. -/
theorem WellFormed.make_of_finalized (h : run.WellFormed) (hfinal : run.rootHash.isSome) (call : Call) :
    ∃ fault, fault.category = .trace ∧ call.make run = (some fault, run) := by
  cases call with
  | addSpan id now options =>
    refine ⟨.spanAfterEnd run.id, rfl, Call.refusal_eq_some.mpr ?_⟩
    rw [Run.addSpan, addSpanFault?, isFinalized, if_pos hfinal]
  | addEvent id now spanId input =>
    refine ⟨.eventAfterEnd run.id, rfl, Call.refusal_eq_some.mpr ?_⟩
    rw [Run.addEvent, addEventFault?, isFinalized, if_pos hfinal]
  | closeSpan now spanId status =>
    obtain ⟨fault, hcategory, hclose⟩ := closeSpan_of_over (h.finalized hfinal) now spanId status
    exact ⟨fault, hcategory, Call.refusal_eq_some.mpr hclose⟩
  | finalize readings now =>
    refine ⟨.finalizedTwice run.id, rfl, Call.refusal_eq_some.mpr ?_⟩
    rw [Run.finalize, isFinalized, if_pos hfinal]

lemma WellFormed.after_of_finalized (h : run.WellFormed) (hfinal : run.rootHash.isSome)
    (later : List Call) : run.after later = run := by
  induction later with
  | nil => rfl
  | cons call rest ih =>
    obtain ⟨fault, -, hmake⟩ := h.make_of_finalized hfinal call
    calc run.after (call :: rest) = (call.make run).2.after rest := rfl
      _ = run.after rest := by rw [hmake]
      _ = run := ih

end Run

/-- **Refusals are atomic, and a finalized run is final.** After any calls on a run that was created,
one more call, with any arguments and any identifier, leaves the whole run as it was if it is refused.
If the run is finalized, this call is refused, and any calls after it find the same run again. -/
theorem refused_call_changes_nothing {id agentId : Bytes} {now : Int} {run : Run} {calls : List Call}
    (created : Run.create id now agentId = .ok run)
    (distinct : (calls.flatMap Call.drawn).Nodup) (call : Call) :
    (∀ fault left, call.make (run.after calls) = (some fault, left) → left = run.after calls) ∧
      ((run.after calls).rootHash.isSome →
        (∃ fault, fault.category = .trace ∧
          call.make (run.after calls) = (some fault, run.after calls)) ∧
        ∀ later, (run.after calls).after later = run.after calls) := by
  have hformed : (run.after calls).WellFormed := after_create_wellFormed created distinct
  refine ⟨fun fault left hrefused => hformed.make_refused hrefused, fun hfinal => ⟨?_, ?_⟩⟩
  · exact hformed.make_of_finalized hfinal call
  · exact hformed.after_of_finalized hfinal

/-- A span that was closed is closed once more after the run has been finalized. -/
theorem refused_call_changes_nothing_nestedCalls :
    ∃ run, Run.create [0] 9 [97] = .ok run ∧ (nestedCalls.flatMap Call.drawn).Nodup ∧
      (run.after nestedCalls).rootHash.isSome ∧
      (∃ fault, fault.category = .trace ∧
        (Call.closeSpan 20 [3] .completed).make (run.after nestedCalls) =
          (some fault, run.after nestedCalls)) ∧
      ∀ later, (run.after nestedCalls).after later = run.after nestedCalls := by
  have created : Run.create [0] 9 [97] = .ok _ := rfl
  have distinct : (nestedCalls.flatMap Call.drawn).Nodup := by decide
  have hfinal := (refused_call_changes_nothing created distinct (.closeSpan 20 [3] .completed)).2 rfl
  exact ⟨_, created, distinct, rfl, hfinal⟩

end Chronicle.Trace
