import Chronicle.Proofs.Trace.Calls

/-!
Runs whose identifiers may repeat.

Identifiers are drawn at random and nothing checks that they are new. A span is looked up by its identifier
and the first one is found, so a later span of that identifier can never be closed, and a run that holds one
is never finalized. In a finalized run every span therefore has a hash and an identifier of its own, whatever
has been drawn.
-/

namespace Chronicle.Trace.Run

/-- What holds of the spans of a run whatever identifiers they were given. -/
structure Orderly (run : Run) : Prop where
  span_seq : run.spans.map (·.spanSeq) = List.range run.spans.length
  next_span_seq : run.nextSpanSeq = run.spans.length
  hash_iff : ∀ span ∈ run.spans, span.hash.isSome ↔ span.status ≠ .running
  /-- a span that is over is the first one of its identifier -/
  first : run.spans.Pairwise fun before span => span.status ≠ .running → before.id ≠ span.id
  finalized : run.rootHash.isSome → ∀ span ∈ run.spans, span.status ≠ .running

variable {run : Run} {spans : List Span} {id : Bytes} {change : Span → Span}

/-! ### Changing the first span of an identifier -/

lemma map_changeFirst {β : Type} {f : Span → β} (h : ∀ span, f (change span) = f span) (id : Bytes)
    (spans : List Span) : (changeFirst id change spans).map f = spans.map f := by
  induction spans with
  | nil => rfl
  | cons span rest ih =>
    rw [changeFirst]
    split
    · rw [List.map_cons, h, List.map_cons]
    · rw [List.map_cons, ih, List.map_cons]

lemma mem_changeFirst {span : Span} (h : span ∈ changeFirst id change spans) :
    span ∈ spans ∨ ∃ old ∈ spans, old.id = id ∧ span = change old := by
  induction spans with
  | nil => exact absurd h List.not_mem_nil
  | cons head rest ih =>
    rw [changeFirst] at h
    split at h
    · next hid =>
      rcases List.mem_cons.mp h with rfl | hrest
      · exact Or.inr ⟨head, List.mem_cons_self, hid, rfl⟩
      · exact Or.inl (List.mem_cons_of_mem _ hrest)
    · rcases List.mem_cons.mp h with rfl | hrest
      · exact Or.inl List.mem_cons_self
      · rcases ih hrest with hmem | ⟨old, hold, hid, rfl⟩
        · exact Or.inl (List.mem_cons_of_mem _ hmem)
        · exact Or.inr ⟨old, List.mem_cons_of_mem _ hold, hid, rfl⟩

lemma changeFirst_middle {front rest : List Span} {span : Span} (h : ∀ before ∈ front, before.id ≠ span.id)
    (change : Span → Span) :
    changeFirst span.id change (front ++ span :: rest) = front ++ change span :: rest := by
  induction front with
  | nil => rw [List.nil_append, changeFirst, if_pos rfl, List.nil_append]
  | cons head front ih =>
    obtain ⟨hhead, hfront⟩ := List.forall_mem_cons.mp h
    rw [List.cons_append, changeFirst, if_neg hhead, ih hfront, List.cons_append]

/-- What is over stays the first of its identifier, because it is the first that is changed. -/
lemma first_changeFirst (hid : ∀ span, (change span).id = span.id)
    (h : spans.Pairwise fun before span => span.status ≠ .running → before.id ≠ span.id) :
    (changeFirst id change spans).Pairwise
      fun before span => span.status ≠ .running → before.id ≠ span.id := by
  induction h with
  | nil => exact List.Pairwise.nil
  | @cons head rest hhead hrest ih =>
    rw [changeFirst]
    split
    · refine List.pairwise_cons.mpr ⟨fun span hspan => ?_, hrest⟩
      rw [hid]
      exact hhead span hspan
    · next hother =>
      refine List.pairwise_cons.mpr ⟨fun span hspan hover => ?_, ih⟩
      rcases mem_changeFirst hspan with hmem | ⟨old, -, hold, rfl⟩
      · exact hhead span hmem hover
      · rw [hid, hold]
        exact hother

/-- A change that keeps identifier and number of a span, and never takes its end back. -/
structure Proper (change : Span → Span) : Prop where
  id_eq : ∀ span, (change span).id = span.id
  seq_eq : ∀ span, (change span).spanSeq = span.spanSeq
  hash_iff : ∀ span, (span.hash.isSome ↔ span.status ≠ .running) →
    ((change span).hash.isSome ↔ (change span).status ≠ .running)
  stays_ended : ∀ span, span.status ≠ .running → (change span).status ≠ .running

lemma Orderly.changeSpan (h : run.Orderly) (hchange : Proper change) (id : Bytes) :
    (run.changeSpan id change).Orderly := by
  have hlength : (changeFirst id change run.spans).length = run.spans.length := by
    have hids := congrArg List.length (map_changeFirst hchange.id_eq id run.spans)
    simpa only [List.length_map] using hids
  refine ⟨?_, h.next_span_seq.trans hlength.symm, fun span hspan => ?_,
    first_changeFirst hchange.id_eq h.first, fun hroot span hspan => ?_⟩
  · change (changeFirst id change run.spans).map _ = List.range (changeFirst id change run.spans).length
    rw [map_changeFirst hchange.seq_eq, hlength, h.span_seq]
  · rcases mem_changeFirst hspan with hmem | ⟨old, hold, -, rfl⟩
    · exact h.hash_iff span hmem
    · exact hchange.hash_iff old (h.hash_iff old hold)
  · rcases mem_changeFirst hspan with hmem | ⟨old, hold, -, rfl⟩
    · exact h.finalized hroot span hmem
    · exact hchange.stays_ended old (h.finalized hroot old hold)

lemma proper_parent (childId : Bytes) :
    Proper fun parent => { parent with childSpanIds := parent.childSpanIds ++ [childId] } :=
  ⟨fun _ => rfl, fun _ => rfl, fun _ h => h, fun _ h => h⟩

lemma proper_attach (event : Event) : Proper (attach event) :=
  ⟨fun _ => rfl, fun _ => rfl, fun _ h => h, fun _ h => h⟩

lemma proper_closed (run : Run) (now : Int) {status : Status} (hstatus : status ≠ .running) :
    Proper (run.closed now status) :=
  ⟨fun _ => rfl, fun _ => rfl, fun _ _ => ⟨fun _ => hstatus, fun _ => rfl⟩, fun _ _ => hstatus⟩

/-! ### Calls -/

lemma orderly_of_create {now : Int} {agentId : Bytes} (h : Run.create id now agentId = .ok run) :
    run.Orderly := by
  unfold Run.create at h
  split at h
  · cases h
  · cases h
    exact ⟨rfl, rfl, fun _ hspan => absurd hspan List.not_mem_nil, List.Pairwise.nil,
      fun _ _ hspan => absurd hspan List.not_mem_nil⟩

/-- A new span is running, so it need not be the first of its identifier. -/
lemma Orderly.withSpan (h : run.Orderly) (hopen : run.rootHash = none) (id : Bytes) (now : Int)
    (options : SpanOptions) :
    ({ run with
      nextSpanSeq := run.nextSpanSeq + 1
      spans := run.spans ++ [run.newSpan id now options] } : Run).Orderly where
  span_seq := by
    rw [List.map_append, h.span_seq, List.length_append, List.length_singleton, List.range_succ,
      List.map_singleton, newSpan, h.next_span_seq]
  next_span_seq := by rw [h.next_span_seq, List.length_append, List.length_singleton]
  hash_iff := by
    intro span hspan
    rcases List.mem_append.mp hspan with hold | hnew
    · exact h.hash_iff span hold
    · rw [List.mem_singleton.mp hnew]
      simp [newSpan]
  first := by
    refine List.pairwise_append.mpr ⟨h.first, List.pairwise_singleton _ _, fun before _ span hnew hover => ?_⟩
    rw [List.mem_singleton.mp hnew] at hover
    exact absurd rfl hover
  finalized := by simp [hopen]

lemma Orderly.addSpan (h : run.Orderly) (id : Bytes) (now : Int) (options : SpanOptions) :
    (run.addSpan id now options).2.Orderly := by
  unfold Run.addSpan
  split
  · exact h
  next hfault =>
  have hadded := h.withSpan (addSpanFault?_eq_none hfault).1 id now options
  change (run.enterSpan (run.newSpan id now options)).Orderly
  unfold enterSpan
  split
  · exact hadded
  · exact hadded.changeSpan (proper_parent id) _

lemma Orderly.addEvent (h : run.Orderly) (id : Bytes) (now : Int) (spanId : Bytes) (input : EventInput) :
    (run.addEvent id now spanId input).2.Orderly := by
  unfold Run.addEvent
  split
  · exact h
  · have hlisted := h.changeSpan (proper_attach (run.newEvent id now input)) spanId
    exact ⟨hlisted.span_seq, hlisted.next_span_seq, hlisted.hash_iff, hlisted.first, hlisted.finalized⟩

lemma Orderly.closeSpan (h : run.Orderly) (now : Int) (spanId : Bytes) (status : Status) :
    (run.closeSpan now spanId status).2.Orderly := by
  unfold Run.closeSpan
  split
  · exact h
  split
  · exact h
  split
  · exact h
  next hstatus => exact h.changeSpan (proper_closed run now hstatus) spanId

lemma Orderly.closeRunning (h : run.Orderly) (spans : List Span) (readings : List Int) :
    (closeRunning spans readings run).2.Orderly := by
  induction spans generalizing run readings with
  | nil => exact h
  | cons span rest ih =>
    have hclosed := h.closeSpan (readings.headD 0) span.id .completed
    rw [Run.closeRunning]
    split
    · exact ih h readings
    · split
      · next heq => rwa [heq] at hclosed
      · next heq =>
        rw [heq] at hclosed
        exact ih hclosed readings.tail

/-- Behind spans that are over, a span can only be closed by its identifier if it is the first of it. -/
lemma closeSpan_middle {front rest : List Span} {span : Span} {now : Int} {status : Status} {run' : Run}
    (hspans : run.spans = front ++ span :: rest) (hfront : ∀ before ∈ front, before.status ≠ .running)
    (h : run.closeSpan now span.id .completed = (.ok status, run')) :
    run'.spans = front ++ run.closed now .completed span :: rest := by
  unfold Run.closeSpan at h
  rcases hfound : run.span? span.id with _ | found
  · rw [hfound] at h
    cases h
  rw [hfound] at h
  dsimp only at h
  split at h
  · cases h
  next hrunning =>
  have hother : ∀ before ∈ front, before.id ≠ span.id := by
    intro before hbefore hid
    rcases hfirst : front.find? fun other => other.id == span.id with _ | first
    · exact absurd (beq_iff_eq.mpr hid) (List.find?_eq_none.mp hfirst before hbefore)
    · rw [span?, hspans, List.find?_append, hfirst] at hfound
      obtain rfl : first = found := Option.some.inj hfound
      exact hrunning (hfront first (List.mem_of_find?_eq_some hfirst))
  cases h
  change changeFirst span.id _ run.spans = _
  rw [hspans, changeFirst_middle hother]

/-- Where closing what is running succeeds, nothing is running any more. -/
lemma closeRunning_over {front : List Span} {readings : List Int} {run' : Run}
    (hspans : run.spans = front ++ spans) (hfront : ∀ span ∈ front, span.status ≠ .running)
    (h : closeRunning spans readings run = (.ok (), run')) :
    ∀ span ∈ run'.spans, span.status ≠ .running := by
  induction spans generalizing run front readings with
  | nil =>
    cases h
    rwa [hspans, List.append_nil]
  | cons span rest ih =>
    have hsnoc : ∀ last : Span, last.status ≠ .running →
        ∀ span ∈ front ++ [last], span.status ≠ .running := by
      intro last hlast span hspan
      rcases List.mem_append.mp hspan with hmem | hmem
      · exact hfront span hmem
      · rwa [List.mem_singleton.mp hmem]
    rw [closeRunning] at h
    split at h
    · next hover => exact ih (hspans.trans (List.append_cons _ _ _)) (hsnoc span hover) h
    · split at h
      · cases h
      · next heq =>
        have hclosed := closeSpan_middle hspans hfront heq
        refine ih (hclosed.trans (List.append_cons _ _ _)) (hsnoc _ ?_) h
        exact Status.noConfusion

lemma Orderly.finalize (h : run.Orderly) (readings : List Int) (now : Int) :
    (run.finalize readings now).2.Orderly := by
  unfold Run.finalize
  split
  · exact h
  have hclosed := h.closeRunning run.spans readings
  split
  · next heq => rwa [heq] at hclosed
  · next heq =>
    rw [heq] at hclosed
    have hover := closeRunning_over (List.nil_append run.spans).symm
      (fun _ hspan => absurd hspan List.not_mem_nil) heq
    exact ⟨hclosed.span_seq, hclosed.next_span_seq, hclosed.hash_iff, hclosed.first, fun _ => hover⟩

lemma Orderly.make (h : run.Orderly) (call : Call) : (call.make run).2.Orderly := by
  cases call with
  | addSpan id now options =>
    rw [Call.make, Call.refusal_snd]
    exact h.addSpan id now options
  | addEvent id now spanId input =>
    rw [Call.make, Call.refusal_snd]
    exact h.addEvent id now spanId input
  | closeSpan now spanId status =>
    rw [Call.make, Call.refusal_snd]
    exact h.closeSpan now spanId status
  | finalize readings now =>
    rw [Call.make, Call.refusal_snd]
    exact h.finalize readings now

/-- **A run stays orderly** after any calls, also if they draw what has been drawn before. -/
theorem Orderly.after (h : run.Orderly) (calls : List Call) : (run.after calls).Orderly := by
  induction calls generalizing run with
  | nil => exact h
  | cons call rest ih => exact ih (h.make call)

/-! ### Finalized runs -/

lemma Orderly.spans_sorted (h : run.Orderly) : run.spans.Pairwise fun a b => a.spanSeq < b.spanSeq := by
  rw [← List.pairwise_map (f := Span.spanSeq), h.span_seq]
  exact List.pairwise_lt_range

/-- **In a finalized run no identifier repeats.** -/
theorem Orderly.ids_nodup (h : run.Orderly) (hfinal : run.rootHash.isSome) :
    (run.spans.map (·.id)).Nodup := by
  refine List.pairwise_map.mpr (h.first.imp_of_mem fun {before span} _ hspan hfirst => ?_)
  exact hfirst (h.finalized hfinal span hspan)

lemma Orderly.exists_hash (h : run.Orderly) (hfinal : run.rootHash.isSome) {span : Span}
    (hspan : span ∈ run.spans) : ∃ hash, span.hash = some hash :=
  Option.isSome_iff_exists.mp ((h.hash_iff span hspan).mpr (h.finalized hfinal span hspan))

end Chronicle.Trace.Run
