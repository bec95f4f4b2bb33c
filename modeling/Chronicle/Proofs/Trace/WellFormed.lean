import Chronicle.Proofs.Trace.Chain
import Chronicle.Proofs.Trace.Changes
import Mathlib.Tactic.Set

/-!
When a run is well formed, and that entering and closing keep it so.

Events and spans carry their places as numbers, the rolling hash is the chain over the events, every
event is listed once by one span, and spans form a forest: a parent comes before its children and lists
them. What is over has an end and a hash.

An operation changes the spans one by one and leaves what ties them together as it is: identifier,
number and parent. That is said once, for all three changes.
-/

namespace Chronicle.Trace

/-- A span has a hash, an end and a duration once it is over. -/
structure Span.WellFormed (span : Span) : Prop where
  hash_iff : span.hash.isSome ↔ span.status ≠ .running
  ended_at_iff : span.endedAt.isSome ↔ span.status ≠ .running
  duration_iff : span.durationMs.isSome ↔ span.status ≠ .running

structure Run.WellFormed (run : Run) : Prop where
  event_seq : ∀ i (h : i < run.events.length), run.events[i].seq = i
  next_seq : run.nextSeq = run.events.length
  span_seq : ∀ i (h : i < run.spans.length), run.spans[i].spanSeq = i
  next_span_seq : run.nextSpanSeq = run.spans.length
  rolling_hash : run.rollingHash = rolled (run.events.map (·.hash))
  span_ids_nodup : (run.spans.map (·.id)).Nodup
  /-- every event is listed by one span, once -/
  event_once : ∀ event ∈ run.events, (run.spans.flatMap (·.eventIds)).count event.id = 1
  /-- a span lists events of the run in the order of their numbers -/
  events_listed : ∀ span ∈ run.spans, ∃ listed : List Event,
    (∀ event ∈ listed, event ∈ run.events) ∧ listed.Pairwise (fun a b => a.seq < b.seq) ∧
      span.eventIds = listed.map (·.id)
  parent_earlier : ∀ span ∈ run.spans, ∀ parent, span.parentSpanId = some parent →
    ∃ above ∈ run.spans, above.id = parent ∧ above.spanSeq < span.spanSeq
  /-- a span lists the spans below it in the order of their numbers -/
  children_listed : ∀ span ∈ run.spans, span.childSpanIds =
    (run.spans.filter fun child => child.parentSpanId = some span.id).map (·.id)
  spans_wellFormed : ∀ span ∈ run.spans, span.WellFormed
  /-- a finalized run has no running span -/
  finalized : run.rootHash.isSome → ∀ span ∈ run.spans, span.status ≠ .running

namespace Run

variable {run : Run}

/-- All identifiers in a run. -/
def ids (run : Run) : List Bytes := run.spans.map (·.id) ++ run.events.map (·.id)

lemma WellFormed.spanSeq_lt (h : run.WellFormed) {span : Span} (hspan : span ∈ run.spans) :
    span.spanSeq < run.spans.length := by
  obtain ⟨i, hi, rfl⟩ := List.getElem_of_mem hspan
  rw [h.span_seq i hi]
  exact hi

lemma WellFormed.seq_lt (h : run.WellFormed) {event : Event} (hevent : event ∈ run.events) :
    event.seq < run.events.length := by
  obtain ⟨i, hi, rfl⟩ := List.getElem_of_mem hevent
  rw [h.event_seq i hi]
  exact hi

lemma WellFormed.mem_events (h : run.WellFormed) {id : Bytes}
    (hid : id ∈ run.spans.flatMap (·.eventIds)) : id ∈ run.events.map (·.id) := by
  obtain ⟨span, hspan, hmem⟩ := List.mem_flatMap.mp hid
  obtain ⟨listed, hlisted, -, heq⟩ := h.events_listed span hspan
  rw [heq] at hmem
  obtain ⟨event, hevent, rfl⟩ := List.mem_map.mp hmem
  exact List.mem_map_of_mem (hlisted event hevent)

lemma numbered_concat {α : Type} {number : α → Nat} {list : List α} {last : α}
    (h : ∀ i (hi : i < list.length), number list[i] = i) (hlast : number last = list.length) :
    ∀ i (hi : i < (list ++ [last]).length), number (list ++ [last])[i] = i := by
  intro i hi
  rcases Nat.lt_or_ge i list.length with hlt | hge
  · rw [List.getElem_append_left hlt]
    exact h i hlt
  · rw [List.getElem_append_right hge, List.getElem_singleton, hlast]
    simp only [List.length_append, List.length_singleton] at hi
    omega

/-! ### Changes that keep the forest -/

/-- A change that leaves identifier, number and parent of a span as they are. -/
structure KeepsPlace (change : Span → Span) : Prop where
  id_eq : ∀ span, (change span).id = span.id
  seq_eq : ∀ span, (change span).spanSeq = span.spanSeq
  parent_eq : ∀ span, (change span).parentSpanId = span.parentSpanId

lemma keepsPlace_adopt (child : Span) : KeepsPlace (adopt child) := by
  constructor <;> intro span <;> unfold adopt <;> split <;> rfl

lemma KeepsPlace.changeAt {change : Span → Span} (h : KeepsPlace change) (id : Bytes) :
    KeepsPlace (changeAt id change) where
  id_eq span := changeAt_ind (P := fun s => s.id = span.id) rfl (h.id_eq span)
  seq_eq span := changeAt_ind (P := fun s => s.spanSeq = span.spanSeq) rfl (h.seq_eq span)
  parent_eq span :=
    changeAt_ind (P := fun s => s.parentSpanId = span.parentSpanId) rfl (h.parent_eq span)

lemma keepsPlace_attach (event : Event) : KeepsPlace (attach event) :=
  ⟨fun _ => rfl, fun _ => rfl, fun _ => rfl⟩

lemma keepsPlace_closed (run : Run) (now : Int) (status : Status) :
    KeepsPlace (run.closed now status) :=
  ⟨fun _ => rfl, fun _ => rfl, fun _ => rfl⟩

section

variable {change : Span → Span} {spans : List Span}

lemma KeepsPlace.map_id (h : KeepsPlace change) (spans : List Span) :
    (spans.map change).map (·.id) = spans.map (·.id) := by
  rw [List.map_map]
  exact List.map_congr_left fun span _ => h.id_eq span

lemma KeepsPlace.span_seq (h : KeepsPlace change)
    (hseq : ∀ i (hi : i < spans.length), spans[i].spanSeq = i) :
    ∀ i (hi : i < (spans.map change).length), (spans.map change)[i].spanSeq = i := by
  intro i hi
  rw [List.length_map] at hi
  rw [List.getElem_map, h.seq_eq, hseq i hi]

lemma KeepsPlace.parent_earlier (h : KeepsPlace change)
    (hparent : ∀ span ∈ spans, ∀ parent, span.parentSpanId = some parent →
      ∃ above ∈ spans, above.id = parent ∧ above.spanSeq < span.spanSeq) :
    ∀ span ∈ spans.map change, ∀ parent, span.parentSpanId = some parent →
      ∃ above ∈ spans.map change, above.id = parent ∧ above.spanSeq < span.spanSeq := by
  intro span hspan parent hp
  obtain ⟨old, hold, rfl⟩ := List.mem_map.mp hspan
  rw [h.parent_eq] at hp
  obtain ⟨above, habove, hid, hlt⟩ := hparent old hold parent hp
  refine ⟨change above, List.mem_map_of_mem habove, ?_, ?_⟩
  · rw [h.id_eq, hid]
  · rw [h.seq_eq, h.seq_eq]
    exact hlt

lemma KeepsPlace.children (h : KeepsPlace change) (spans : List Span) (id : Bytes) :
    ((spans.map change).filter fun child => child.parentSpanId = some id).map (·.id) =
      (spans.filter fun child => child.parentSpanId = some id).map (·.id) := by
  rw [List.filter_map, h.map_id]
  congr 2
  funext span
  simp [h.parent_eq]

lemma KeepsPlace.children_listed (h : KeepsPlace change)
    (hchange : ∀ span, (change span).childSpanIds = span.childSpanIds)
    (hlisted : ∀ span ∈ spans, span.childSpanIds =
      (spans.filter fun child => child.parentSpanId = some span.id).map (·.id)) :
    ∀ span ∈ spans.map change, span.childSpanIds =
      ((spans.map change).filter fun child => child.parentSpanId = some span.id).map (·.id) := by
  intro span hspan
  obtain ⟨old, hold, rfl⟩ := List.mem_map.mp hspan
  rw [hchange, h.id_eq, h.children, hlisted old hold]

end

/-! ### A new span -/

lemma newSpan_wellFormed (run : Run) (id : Bytes) (now : Int) (options : SpanOptions) :
    (run.newSpan id now options).WellFormed := by
  constructor <;> simp [newSpan]

lemma WellFormed.no_children (h : run.WellFormed) {id : Bytes} (hid : id ∉ run.spans.map (·.id)) :
    (run.spans.filter fun child => child.parentSpanId = some id) = [] := by
  rw [List.filter_eq_nil_iff]
  intro child hchild hparent
  obtain ⟨above, habove, rfl, -⟩ := h.parent_earlier child hchild id (by simpa using hparent)
  exact hid (List.mem_map_of_mem habove)

lemma adopt_wellFormed {child span : Span} (h : span.WellFormed) :
    (adopt child span).WellFormed := by
  unfold adopt
  split
  · exact ⟨h.hash_iff, h.ended_at_iff, h.duration_iff⟩
  · exact h

lemma adopt_eventIds (child span : Span) : (adopt child span).eventIds = span.eventIds := by
  unfold adopt
  split <;> rfl

/-- A new span below a span of the run, or below none, is listed last. -/
theorem WellFormed.withSpan (h : run.WellFormed) {span : Span} (hspan : span.WellFormed)
    (hseq : span.spanSeq = run.nextSpanSeq) (hid : span.id ∉ run.spans.map (·.id))
    (hevents : span.eventIds = []) (hchildren : span.childSpanIds = [])
    (hopen : run.rootHash = none)
    (hparent : ∀ parent, span.parentSpanId = some parent → ∃ above ∈ run.spans, above.id = parent) :
    ({ run with
      nextSpanSeq := run.nextSpanSeq + 1
      spans := run.spans.map (adopt span) ++ [span] } : Run).WellFormed := by
  -- A new span is not its own parent, since its parent is listed already.
  have hself : span.parentSpanId ≠ some span.id := by
    intro hp
    obtain ⟨above, habove, habove_id⟩ := hparent span.id hp
    exact hid (habove_id ▸ List.mem_map_of_mem habove)
  have hkeep := keepsPlace_adopt span
  refine {
    event_seq := h.event_seq
    next_seq := h.next_seq
    span_seq := numbered_concat (hkeep.span_seq h.span_seq) (by simp [hseq, h.next_span_seq])
    next_span_seq := by simp [h.next_span_seq]
    rolling_hash := h.rolling_hash
    span_ids_nodup := ?_
    event_once := ?_
    events_listed := ?_
    parent_earlier := ?_
    children_listed := ?_
    spans_wellFormed := ?_
    finalized := ?_ }
  · rw [List.map_append, hkeep.map_id, List.map_singleton]
    exact h.span_ids_nodup.append (List.nodup_singleton _) (List.disjoint_singleton.mpr hid)
  · intro event hevent
    have hsame : (run.spans.map (adopt span) ++ [span]).flatMap (·.eventIds) =
        run.spans.flatMap (·.eventIds) := by
      simp only [List.flatMap_append, List.flatMap_map, adopt_eventIds, List.flatMap_singleton,
        hevents, List.append_nil]
    rw [hsame]
    exact h.event_once event hevent
  · intro other hother
    rcases List.mem_append.mp hother with hother | hother
    · obtain ⟨old, hold, rfl⟩ := List.mem_map.mp hother
      rw [adopt_eventIds]
      exact h.events_listed old hold
    · rw [List.mem_singleton.mp hother]
      exact ⟨[], by simp, .nil, hevents⟩
  · intro other hother parent hp
    rcases List.mem_append.mp hother with hother | hother
    · obtain ⟨above, habove, hlt⟩ := hkeep.parent_earlier h.parent_earlier other hother parent hp
      exact ⟨above, List.mem_append_left _ habove, hlt⟩
    · rw [List.mem_singleton.mp hother] at hp ⊢
      obtain ⟨above, habove, habove_id⟩ := hparent parent hp
      refine ⟨adopt span above, List.mem_append_left _ (List.mem_map_of_mem habove), ?_, ?_⟩
      · rw [hkeep.id_eq, habove_id]
      · rw [hkeep.seq_eq, hseq, h.next_span_seq]
        exact h.spanSeq_lt habove
  · intro other hother
    rw [List.filter_append, List.map_append, hkeep.children]
    rcases List.mem_append.mp hother with hother | hother
    · obtain ⟨old, hold, rfl⟩ := List.mem_map.mp hother
      rw [hkeep.id_eq, ← h.children_listed old hold]
      by_cases hp : span.parentSpanId = some old.id <;> simp [adopt, hp]
    · rw [List.mem_singleton.mp hother, hchildren, h.no_children hid]
      simp [hself]
  · intro other hother
    rcases List.mem_append.mp hother with hother | hother
    · obtain ⟨old, hold, rfl⟩ := List.mem_map.mp hother
      exact adopt_wellFormed (h.spans_wellFormed old hold)
    · rw [List.mem_singleton.mp hother]
      exact hspan
  · intro hfinal
    rw [hopen] at hfinal
    cases hfinal

/-! ### A new event -/

/-- Listing an event with one span adds it once to what all spans list. -/
lemma flatMap_attach_perm {spans : List Span} (hids : (spans.map (·.id)).Nodup) {spanId : Bytes}
    (hspan : spanId ∈ spans.map (·.id)) (event : Event) :
    ((spans.map (changeAt spanId (attach event))).flatMap (·.eventIds)).Perm
      (event.id :: spans.flatMap (·.eventIds)) := by
  induction spans with
  | nil => simp at hspan
  | cons span rest ih =>
    rw [List.map_cons, List.nodup_cons] at hids
    rw [List.map_cons, List.flatMap_cons, List.flatMap_cons]
    by_cases hid : span.id = spanId
    · rw [map_changeAt_of_not_mem (hid ▸ hids.1), changeAt, if_pos hid]
      simp only [attach, List.append_assoc, List.singleton_append]
      exact List.perm_middle
    · have hmem : spanId ∈ rest.map (·.id) := by
        rcases List.mem_cons.mp hspan with h | h
        · exact absurd h.symm hid
        · exact h
      rw [changeAt, if_neg hid]
      exact ((ih hids.2 hmem).append_left _).trans List.perm_middle

lemma attach_wellFormed {span : Span} (h : span.WellFormed) (event : Event) :
    (attach event span).WellFormed :=
  ⟨h.hash_iff, h.ended_at_iff, h.duration_iff⟩

/-- A span that lists events in order still does so with the event behind all of them. -/
lemma attach_lists {events : List Event} {event : Event} {spanId : Bytes} {span : Span}
    (hlast : ∀ one ∈ events, one.seq < event.seq)
    (h : ∃ listed : List Event, (∀ one ∈ listed, one ∈ events) ∧
      listed.Pairwise (fun a b => a.seq < b.seq) ∧ span.eventIds = listed.map (·.id)) :
    ∃ listed : List Event, (∀ one ∈ listed, one ∈ events ++ [event]) ∧
      listed.Pairwise (fun a b => a.seq < b.seq) ∧
      (changeAt spanId (attach event) span).eventIds = listed.map (·.id) := by
  obtain ⟨listed, hlisted, hsorted, heq⟩ := h
  by_cases hat : span.id = spanId
  · refine ⟨listed ++ [event], ?_, ?_, ?_⟩
    · intro one hone
      rcases List.mem_append.mp hone with hone | hone
      · exact List.mem_append_left _ (hlisted one hone)
      · exact List.mem_append_right _ hone
    · refine List.pairwise_append.mpr ⟨hsorted, List.pairwise_singleton _ _, ?_⟩
      intro one hone last hmem
      rw [List.mem_singleton.mp hmem]
      exact hlast one (hlisted one hone)
    · simp [changeAt, hat, attach, heq]
  · refine ⟨listed, fun one hone => List.mem_append_left _ (hlisted one hone), hsorted, ?_⟩
    rw [changeAt, if_neg hat, heq]

/-- A new event is listed last, with one span of the run, and chained. -/
theorem WellFormed.withEvent (h : run.WellFormed) {spanId : Bytes} {event : Event}
    (hseq : event.seq = run.nextSeq) (hid : event.id ∉ run.events.map (·.id))
    (hspan : spanId ∈ run.spans.map (·.id)) (hopen : run.rootHash = none) :
    ({ run with
      nextSeq := run.nextSeq + 1
      rollingHash := roll run.rollingHash event.hash
      events := run.events ++ [event]
      spans := run.spans.map (changeAt spanId (attach event)) } : Run).WellFormed := by
  have hkeep := (keepsPlace_attach event).changeAt spanId
  refine {
    event_seq := numbered_concat h.event_seq (hseq.trans h.next_seq)
    next_seq := by simp [h.next_seq]
    span_seq := hkeep.span_seq h.span_seq
    next_span_seq := by simp [h.next_span_seq]
    rolling_hash := ?_
    span_ids_nodup := by rw [hkeep.map_id]; exact h.span_ids_nodup
    event_once := ?_
    events_listed := ?_
    parent_earlier := hkeep.parent_earlier h.parent_earlier
    children_listed := hkeep.children_listed (fun span =>
      changeAt_ind (P := fun s => s.childSpanIds = span.childSpanIds) rfl rfl) h.children_listed
    spans_wellFormed := ?_
    finalized := ?_ }
  · rw [List.map_append, List.map_singleton, rolled_concat, ← h.rolling_hash]
  · intro other hother
    rw [(flatMap_attach_perm h.span_ids_nodup hspan event).count_eq, List.count_cons]
    rcases List.mem_append.mp hother with hother | hother
    · -- Listing the new event adds nothing for an event of before.
      have hne : event.id ≠ other.id := fun heq => hid (heq ▸ List.mem_map_of_mem hother)
      rw [h.event_once other hother, if_neg (by simpa using hne)]
    · rw [List.mem_singleton.mp hother, if_pos (by simp),
        List.count_eq_zero_of_not_mem fun hmem => hid (h.mem_events hmem)]
  · intro other hother
    obtain ⟨old, hold, rfl⟩ := List.mem_map.mp hother
    refine attach_lists (fun one hone => ?_) (h.events_listed old hold)
    rw [hseq, h.next_seq]
    exact h.seq_lt hone
  · intro other hother
    obtain ⟨old, hold, rfl⟩ := List.mem_map.mp hother
    have hspan := h.spans_wellFormed old hold
    exact changeAt_ind hspan (attach_wellFormed hspan event)
  · intro hfinal
    rw [hopen] at hfinal
    cases hfinal

/-! ### Closing -/

lemma closed_wellFormed (run : Run) (now : Int) {status : Status} (hstatus : status ≠ .running)
    (span : Span) : (run.closed now status span).WellFormed := by
  constructor <;> simp [closed, hstatus]

theorem WellFormed.close (h : run.WellFormed) (now : Int) (spanId : Bytes) {status : Status}
    (hstatus : status ≠ .running) :
    ({ run with spans := run.spans.map (changeAt spanId (run.closed now status)) } :
      Run).WellFormed := by
  have hkeep := (keepsPlace_closed run now status).changeAt spanId
  have hlists : ∀ span, (changeAt spanId (run.closed now status) span).eventIds = span.eventIds :=
    fun span => changeAt_ind (P := fun s => s.eventIds = span.eventIds) rfl rfl
  refine {
    event_seq := h.event_seq
    next_seq := h.next_seq
    span_seq := hkeep.span_seq h.span_seq
    next_span_seq := by simp [h.next_span_seq]
    rolling_hash := h.rolling_hash
    span_ids_nodup := by rw [hkeep.map_id]; exact h.span_ids_nodup
    event_once := ?_
    events_listed := ?_
    parent_earlier := hkeep.parent_earlier h.parent_earlier
    children_listed := hkeep.children_listed (fun span =>
      changeAt_ind (P := fun s => s.childSpanIds = span.childSpanIds) rfl rfl) h.children_listed
    spans_wellFormed := ?_
    finalized := ?_ }
  · intro event hevent
    simp only [List.flatMap_map, hlists]
    exact h.event_once event hevent
  · intro other hother
    obtain ⟨old, hold, rfl⟩ := List.mem_map.mp hother
    rw [hlists]
    exact h.events_listed old hold
  · intro other hother
    obtain ⟨old, hold, rfl⟩ := List.mem_map.mp hother
    exact changeAt_ind (h.spans_wellFormed old hold) (closed_wellFormed run now hstatus old)
  · intro hfinal other hother
    obtain ⟨old, hold, rfl⟩ := List.mem_map.mp hother
    exact changeAt_ind (P := fun s => s.status ≠ .running) (h.finalized hfinal old hold) hstatus

/-! ### The operations -/

lemma empty_of_create {id agentId : Bytes} {now : Int} (h : Run.create id now agentId = .ok run) :
    run.rootHash = none ∧ run.spans = [] ∧ run.events = [] ∧ run.nextSeq = 0 := by
  unfold create at h
  split at h
  · cases h
  · cases h
    exact ⟨rfl, rfl, rfl, rfl⟩

lemma create_wellFormed {id agentId : Bytes} {now : Int} (h : Run.create id now agentId = .ok run) :
    run.WellFormed := by
  unfold create at h
  split at h
  · cases h
  · cases h
    constructor <;> simp [rolled]

lemma WellFormed.addSpan (h : run.WellFormed) {id : Bytes} (hid : id ∉ run.ids) (now : Int)
    (options : SpanOptions) : (run.addSpan id now options).2.WellFormed := by
  have hnew : id ∉ run.spans.map (·.id) := fun hmem => hid (List.mem_append_left _ hmem)
  rcases addSpan_cases h.span_ids_nodup hnew now options with
    ⟨fault, hrefused⟩ | ⟨hopen, -, hparent, hadded⟩
  · rw [hrefused]
    exact h
  · rw [hadded]
    refine h.withSpan (newSpan_wellFormed run id now options) rfl hnew rfl rfl hopen ?_
    intro parent hp
    obtain ⟨above, habove, habove_id, -⟩ := hparent parent hp
    exact ⟨above, habove, habove_id⟩

lemma WellFormed.addEvent (h : run.WellFormed) {id : Bytes} (hid : id ∉ run.ids) (now : Int)
    (spanId : Bytes) (input : EventInput) : (run.addEvent id now spanId input).2.WellFormed := by
  rcases addEvent_cases h.span_ids_nodup id now spanId input with
    ⟨fault, hrefused⟩ | ⟨hopen, -, ⟨span, hspan, rfl, -⟩, hadded⟩
  · rw [hrefused]
    exact h
  · rw [hadded]
    have hnew : id ∉ run.events.map (·.id) := fun hmem => hid (List.mem_append_right _ hmem)
    exact h.withEvent rfl hnew (List.mem_map_of_mem hspan) hopen

lemma WellFormed.closeSpan (h : run.WellFormed) (now : Int) (spanId : Bytes) (status : Status) :
    (run.closeSpan now spanId status).2.WellFormed := by
  rcases closeSpan_cases h.span_ids_nodup now spanId status with
    ⟨fault, hrefused⟩ | ⟨hstatus, -, hclosed⟩
  · rw [hrefused]
    exact h
  · rw [hclosed]
    exact h.close now spanId hstatus

lemma WellFormed.closeRunning (h : run.WellFormed) (spans : List Span) (readings : List Int) :
    (closeRunning spans readings run).2.WellFormed := by
  induction spans generalizing run readings with
  | nil => exact h
  | cons span rest ih =>
    rw [Run.closeRunning]
    split
    · exact ih h readings
    · have hclose := h.closeSpan (readings.headD 0) span.id .completed
      rcases hresult : run.closeSpan (readings.headD 0) span.id .completed with ⟨fault | _, next⟩
      · rw [hresult] at hclose
        exact hclose
      · rw [hresult] at hclose
        exact ih hclose readings.tail

lemma WellFormed.ended (h : run.WellFormed) (hover : ∀ span ∈ run.spans, span.status ≠ .running)
    (now : Int) : (run.ended now).WellFormed :=
  { h with finalized := fun _ => hover }

lemma WellFormed.finalize (h : run.WellFormed) (readings : List Int) (now : Int) :
    (run.finalize readings now).2.WellFormed := by
  unfold Run.finalize
  split
  · exact h
  · obtain ⟨spans', hclosed, hall⟩ :=
      closeRunning_eq h.span_ids_nodup (List.nil_append run.spans).symm readings
    have hnext := h.closeRunning run.spans readings
    rw [hclosed] at hnext ⊢
    exact hnext.ended (completes_over hall) now

end Run

end Chronicle.Trace
