import Chronicle.Trace.Recording
import Mathlib.Data.List.Nodup

/-!
What the operations on a run do to its spans.

A run finds a span by its identifier, and changes the first one of that identifier. Where identifiers
are distinct, to change a span is to map over all of them. An operation that is not refused changes the
run in one of three ways: it enters a span, it enters an event, or it closes a span.
-/

namespace Chronicle.Trace.Run

variable {run : Run}

/-- Changes the spans of an identifier. -/
def changeAt (id : Bytes) (change : Span → Span) (span : Span) : Span :=
  if span.id = id then change span else span

/-- What holds of a span and of the span changed holds of what it becomes. -/
lemma changeAt_ind {P : Span → Prop} {id : Bytes} {change : Span → Span} {span : Span}
    (hkept : P span) (hchanged : P (change span)) : P (changeAt id change span) := by
  unfold changeAt
  split
  · exact hchanged
  · exact hkept

lemma map_changeAt_of_not_mem {spans : List Span} {id : Bytes} (hid : id ∉ spans.map (·.id))
    (change : Span → Span) : spans.map (changeAt id change) = spans := by
  conv_rhs => rw [← List.map_id spans]
  refine List.map_congr_left fun span hspan => if_neg fun h => hid ?_
  rw [← h]
  exact List.mem_map_of_mem hspan

lemma changeFirst_eq_map {spans : List Span} (hids : (spans.map (·.id)).Nodup) (id : Bytes)
    (change : Span → Span) : changeFirst id change spans = spans.map (changeAt id change) := by
  induction spans with
  | nil => rfl
  | cons span rest ih =>
    rw [List.map_cons, List.nodup_cons] at hids
    rw [changeFirst, List.map_cons, changeAt]
    split
    · next hid => rw [map_changeAt_of_not_mem (hid ▸ hids.1)]
    · rw [ih hids.2]

lemma span?_eq_some {id : Bytes} {span : Span} (h : run.span? id = some span) :
    span ∈ run.spans ∧ span.id = id := by
  refine ⟨List.mem_of_find?_eq_some h, ?_⟩
  simpa using List.find?_some h

lemma find?_key_of_mem {α : Type} {key : α → Bytes} {list : List α} (hkeys : (list.map key).Nodup)
    {x : α} (h : x ∈ list) : list.find? (fun other => key other == key x) = some x := by
  rcases hfound : list.find? (fun other => key other == key x) with _ | found
  · have hnone := List.find?_eq_none.mp hfound x h
    simp at hnone
  · have hkey : key found = key x := by simpa using List.find?_some hfound
    rw [List.inj_on_of_nodup_map hkeys (List.mem_of_find?_eq_some hfound) h hkey]

lemma span?_of_mem (hids : (run.spans.map (·.id)).Nodup) {span : Span} (h : span ∈ run.spans) :
    run.span? span.id = some span :=
  find?_key_of_mem hids h

/-! ### Spans -/

/-- Enters a new span with its parent. -/
def adopt (child span : Span) : Span :=
  if child.parentSpanId = some span.id then
    { span with childSpanIds := span.childSpanIds ++ [child.id] }
  else span

/-- A new span is listed last, and no other span learns of it but its parent. -/
lemma enterSpan_eq {span : Span} (hids : (run.spans.map (·.id)).Nodup)
    (hnew : span.id ∉ run.spans.map (·.id)) (hparent : span.parentSpanId ≠ some span.id) :
    run.enterSpan span =
      { run with
        nextSpanSeq := run.nextSpanSeq + 1
        spans := run.spans.map (adopt span) ++ [span] } := by
  have hadopt : adopt span span = span := if_neg hparent
  unfold enterSpan
  rcases hp : span.parentSpanId with _ | parent
  · have hkeep : ∀ other ∈ run.spans, adopt span other = other := by
      intro other _
      simp [adopt, hp]
    simp only [List.map_congr_left hkeep, List.map_id']
  · have hnodup : ((run.spans ++ [span]).map (·.id)).Nodup := by
      rw [List.map_append, List.map_singleton]
      exact hids.append (List.nodup_singleton _) (by simpa using hnew)
    have hchange : changeAt parent (fun s => { s with childSpanIds := s.childSpanIds ++ [span.id] })
        = adopt span := by
      funext other
      simp only [changeAt, adopt, hp, Option.some.injEq, eq_comm]
    simp only [changeSpan, changeFirst_eq_map hnodup, hchange, List.map_append,
      List.map_singleton, hadopt]

/-- What it takes to add a span. -/
lemma addSpanFault?_eq_none {options : SpanOptions} (h : run.addSpanFault? options = none) :
    run.rootHash = none ∧ options.name ≠ [] ∧ ∀ parent, options.parentSpanId = some parent →
      ∃ above ∈ run.spans, above.id = parent ∧ above.status = .running := by
  unfold addSpanFault? at h
  split at h
  · cases h
  next hopen =>
  split at h
  · cases h
  next hname =>
  refine ⟨by simpa [isFinalized] using hopen, by simpa using hname, ?_⟩
  intro parent hparent
  rw [hparent, parentFault?] at h
  rcases hfound : run.span? parent with _ | above
  · simp [hfound] at h
  · obtain ⟨hmem, hid⟩ := span?_eq_some hfound
    refine ⟨above, hmem, hid, ?_⟩
    by_contra hstatus
    simp [hfound, hstatus] at h

/-- Adding a span is refused and changes nothing, or the span is listed last, below a running parent
if it names one. -/
lemma addSpan_cases (hids : (run.spans.map (·.id)).Nodup) {id : Bytes}
    (hnew : id ∉ run.spans.map (·.id)) (now : Int) (options : SpanOptions) :
    (∃ fault, run.addSpan id now options = (.error fault, run)) ∨
    (run.rootHash = none ∧ options.name ≠ [] ∧
      (∀ parent, options.parentSpanId = some parent →
        ∃ above ∈ run.spans, above.id = parent ∧ above.status = .running) ∧
      run.addSpan id now options = (.ok (run.newSpan id now options),
        { run with
          nextSpanSeq := run.nextSpanSeq + 1
          spans := run.spans.map (adopt (run.newSpan id now options)) ++
            [run.newSpan id now options] })) := by
  unfold addSpan
  rcases hfault : run.addSpanFault? options with _ | fault
  · obtain ⟨hopen, hname, hparent⟩ := addSpanFault?_eq_none hfault
    have hself : (run.newSpan id now options).parentSpanId ≠ some id := by
      intro hp
      obtain ⟨above, habove, habove_id, -⟩ := hparent id hp
      exact hnew (habove_id ▸ List.mem_map_of_mem habove)
    refine Or.inr ⟨hopen, hname, hparent, ?_⟩
    dsimp only
    rw [enterSpan_eq hids hnew hself]
  · exact Or.inl ⟨fault, rfl⟩

/-! ### Events -/

/-- Lists an event with a span. -/
def attach (event : Event) (span : Span) : Span :=
  { span with eventIds := span.eventIds ++ [event.id] }

lemma enterEvent_eq (hids : (run.spans.map (·.id)).Nodup) (spanId : Bytes) (event : Event) :
    run.enterEvent spanId event =
      { run with
        nextSeq := run.nextSeq + 1
        rollingHash := roll run.rollingHash event.hash
        events := run.events ++ [event]
        spans := run.spans.map (changeAt spanId (attach event)) } := by
  unfold enterEvent changeSpan
  rw [changeFirst_eq_map hids]
  rfl

/-- What it takes to add an event. -/
lemma addEventFault?_eq_none {spanId : Bytes} {input : EventInput}
    (h : run.addEventFault? spanId input = none) :
    run.rootHash = none ∧ input.kind ≠ [] ∧
      ∃ span ∈ run.spans, span.id = spanId ∧ span.status = .running := by
  unfold addEventFault? at h
  split at h
  · cases h
  next hopen =>
  rcases hfound : run.span? spanId with _ | span
  · simp [hfound] at h
  · obtain ⟨hmem, hid⟩ := span?_eq_some hfound
    simp only [hfound] at h
    split at h
    · cases h
    next hstatus =>
    split at h
    · cases h
    next hkind =>
    exact ⟨by simpa [isFinalized] using hopen, by simpa using hkind, span, hmem, hid,
      by simpa using hstatus⟩

/-- Adding an event is refused and changes nothing, or the event is listed last, chained, and listed
with a running span. -/
lemma addEvent_cases (hids : (run.spans.map (·.id)).Nodup) (id : Bytes) (now : Int)
    (spanId : Bytes) (input : EventInput) :
    (∃ fault, run.addEvent id now spanId input = (.error fault, run)) ∨
    (run.rootHash = none ∧ input.kind ≠ [] ∧
      (∃ span ∈ run.spans, span.id = spanId ∧ span.status = .running) ∧
      run.addEvent id now spanId input = (.ok (run.newEvent id now input),
        { run with
          nextSeq := run.nextSeq + 1
          rollingHash := roll run.rollingHash (run.newEvent id now input).hash
          events := run.events ++ [run.newEvent id now input]
          spans := run.spans.map (changeAt spanId (attach (run.newEvent id now input))) })) := by
  unfold addEvent
  rcases hfault : run.addEventFault? spanId input with _ | fault
  · obtain ⟨hopen, hkind, hspan⟩ := addEventFault?_eq_none hfault
    refine Or.inr ⟨hopen, hkind, hspan, ?_⟩
    dsimp only
    rw [enterEvent_eq hids]
  · exact Or.inl ⟨fault, rfl⟩

/-! ### Closing -/

lemma changeSpan_eq (hids : (run.spans.map (·.id)).Nodup) (id : Bytes) (change : Span → Span) :
    run.changeSpan id change = { run with spans := run.spans.map (changeAt id change) } := by
  rw [changeSpan, changeFirst_eq_map hids]

/-- Closing a span is refused and changes nothing, or the span was running and is closed now. -/
lemma closeSpan_cases (hids : (run.spans.map (·.id)).Nodup) (now : Int) (spanId : Bytes)
    (status : Status) :
    (∃ fault, run.closeSpan now spanId status = (.error fault, run)) ∨
    (status ≠ .running ∧ (∃ span ∈ run.spans, span.id = spanId ∧ span.status = .running) ∧
      run.closeSpan now spanId status = (.ok status,
        { run with spans := run.spans.map (changeAt spanId (run.closed now status)) })) := by
  unfold closeSpan
  rcases hfound : run.span? spanId with _ | span
  · exact Or.inl ⟨_, rfl⟩
  obtain ⟨hmem, hid⟩ := span?_eq_some hfound
  dsimp only
  by_cases hrunning : span.status = .running
  · by_cases hstatus : status = .running
    · exact Or.inl ⟨_, by rw [if_neg (by simpa using hrunning), if_pos hstatus]⟩
    · right
      refine ⟨hstatus, ⟨span, hmem, hid, hrunning⟩, ?_⟩
      rw [if_neg (by simpa using hrunning), if_neg hstatus, changeSpan_eq hids]
  · exact Or.inl ⟨_, by rw [if_pos hrunning]⟩

/-! ### Finalizing -/

lemma map_changeAt_middle {front rest : List Span} {span : Span}
    (hids : ((front ++ span :: rest).map (·.id)).Nodup) (change : Span → Span) :
    (front ++ span :: rest).map (changeAt span.id change) = front ++ change span :: rest := by
  rw [List.map_append, List.map_cons] at hids
  have hmiddle := List.nodup_middle.mp hids
  rw [List.nodup_cons, List.mem_append, not_or] at hmiddle
  obtain ⟨⟨hover, hrest⟩, -⟩ := hmiddle
  rw [List.map_append, List.map_cons, map_changeAt_of_not_mem hover,
    map_changeAt_of_not_mem hrest, changeAt, if_pos rfl]

/-- A span as finalizing leaves it: completed if it was running, and as it was if not. -/
def Completes (run : Run) (span span' : Span) : Prop :=
  (span.status = .running ∧ ∃ now, span' = run.closed now .completed span) ∨
    (span.status ≠ .running ∧ span' = span)

lemma completes_over {spans spans' : List Span} (h : List.Forall₂ (Completes run) spans spans') :
    ∀ span ∈ spans', span.status ≠ .running := by
  induction h with
  | nil => simp
  | cons hspan _ ih =>
    intro span hmem
    rcases List.mem_cons.mp hmem with rfl | hmem
    · rcases hspan with ⟨-, now, rfl⟩ | ⟨hstatus, rfl⟩
      · exact Status.noConfusion
      · exact hstatus
    · exact ih span hmem

/-- Closing what is open is never refused, and closes each open span in its place. -/
lemma closeRunning_eq {front spans : List Span} (hids : (run.spans.map (·.id)).Nodup)
    (hspans : run.spans = front ++ spans) (readings : List Int) :
    ∃ spans', closeRunning spans readings run = (.ok (), { run with spans := front ++ spans' }) ∧
      List.Forall₂ (Completes run) spans spans' := by
  induction spans generalizing run front readings with
  | nil => exact ⟨[], by rw [← hspans]; rfl, .nil⟩
  | cons span rest ih =>
    rw [closeRunning]
    by_cases hrunning : span.status = .running
    · have hmem : span ∈ run.spans := by
        rw [hspans]
        exact List.mem_append_right _ List.mem_cons_self
      -- The run with this span closed; from it the rest is closed.
      let next : Run :=
        { run with spans := front ++ run.closed (readings.headD 0) .completed span :: rest }
      have hclose : run.closeSpan (readings.headD 0) span.id .completed = (.ok .completed, next) := by
        rw [closeSpan, span?_of_mem hids hmem]
        simp only [hrunning, changeSpan_eq hids, hspans]
        rw [map_changeAt_middle (hspans ▸ hids)]
        rfl
      have hids' : (next.spans.map (·.id)).Nodup := by
        rw [hspans, List.map_append, List.map_cons] at hids
        rw [List.map_append, List.map_cons]
        exact hids
      have hspans' : next.spans =
          (front ++ [run.closed (readings.headD 0) .completed span]) ++ rest :=
        List.append_cons _ _ _
      obtain ⟨spans', hclosed, hall⟩ := ih hids' hspans' readings.tail
      refine ⟨run.closed (readings.headD 0) .completed span :: spans', ?_, ?_⟩
      · rw [if_neg (by simpa using hrunning), hclose]
        simp only [hclosed, List.append_assoc, List.singleton_append]
        rfl
      · exact .cons (Or.inl ⟨hrunning, _, rfl⟩) hall
    · obtain ⟨spans', hclosed, hall⟩ := ih hids (hspans.trans (List.append_cons _ _ _)) readings
      refine ⟨span :: spans', ?_, .cons (Or.inr ⟨hrunning, rfl⟩) hall⟩
      rw [if_pos hrunning, hclosed, List.append_assoc, List.singleton_append]

/-- Finalizing is refused and changes nothing, or it completes what is running and ends the run. -/
lemma finalize_cases (hids : (run.spans.map (·.id)).Nodup) (readings : List Int) (now : Int) :
    (run.rootHash.isSome ∧
      run.finalize readings now = (.error (.finalizedTwice run.id), run)) ∨
    (run.rootHash = none ∧ ∃ spans', List.Forall₂ (Completes run) run.spans spans' ∧
      run.finalize readings now =
        (.ok (({ run with spans := spans' } : Run).ended now).bundle,
          ({ run with spans := spans' } : Run).ended now)) := by
  unfold finalize isFinalized
  by_cases hroot : run.rootHash.isSome
  · exact Or.inl ⟨hroot, by rw [if_pos hroot]⟩
  · obtain ⟨spans', hclosed, hall⟩ := closeRunning_eq hids (List.nil_append run.spans).symm readings
    refine Or.inr ⟨by simpa using hroot, spans', hall, ?_⟩
    rw [if_neg hroot, hclosed]
    rfl

end Chronicle.Trace.Run
