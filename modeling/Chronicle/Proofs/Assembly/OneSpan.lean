import Chronicle.Proofs.Trace.WellFormed
import Chronicle.Trace.Assembly

/-!
Runs with one span.

A batch is recorded in a run with one span. It is entered into the new run and stays open while the
events are added; then it is closed and the run is finalized. None of these steps is refused, and each
keeps what was recorded before: the span lists all events, and the events are numbered in the order of
the batch.
-/

namespace Chronicle.Trace

/-- An event of a run that stands for an event of a batch. -/
structure AssemblySettings.Records (settings : AssemblySettings) (source : Spool.Event)
    (event : Event) : Prop where
  kind_eq : event.kind = utf8 "custom"
  event_type_eq : event.eventType = settings.eventType
  visibility_eq : event.visibility = settings.visibility
  data_eq : event.data = source.payload

/-- One span has this status and all events, which stand for those of a batch, one for one. -/
structure Run.OneSpan (run : Run) (settings : AssemblySettings) (sources : List Spool.Event)
    (status : Status) (span : Span) : Prop where
  spans_eq : run.spans = [span]
  status_eq : span.status = status
  name_eq : span.name = settings.rootSpanName
  visibility_eq : span.visibility = settings.visibility
  no_parent : span.parentSpanId = none
  no_children : span.childSpanIds = []
  event_ids : span.eventIds = run.events.map (·.id)
  records : List.Forall₂ settings.Records sources run.events
  event_seq : ∀ i (h : i < run.events.length), run.events[i].seq = i
  next_seq : run.nextSeq = run.events.length

namespace Run

variable {run : Run} {settings : AssemblySettings} {sources : List Spool.Event} {status : Status}
  {span : Span}

lemma OneSpan.ids_nodup (h : run.OneSpan settings sources status span) :
    (run.spans.map (·.id)).Nodup := by
  rw [h.spans_eq]
  exact List.nodup_singleton _

lemma OneSpan.span?_eq (h : run.OneSpan settings sources status span) :
    run.span? span.id = some span :=
  span?_of_mem h.ids_nodup (h.spans_eq ▸ List.mem_singleton_self span)

lemma OneSpan.map_changeAt (h : run.OneSpan settings sources status span) (change : Span → Span) :
    run.spans.map (changeAt span.id change) = [change span] := by
  rw [h.spans_eq, List.map_singleton, changeAt, if_pos rfl]

lemma OneSpan.addEvent (h : run.OneSpan settings sources .running span)
    (hopen : run.rootHash = none) (source : Spool.Event) (id : Bytes) (now : Int) :
    ∃ event run' span', run.addEvent id now span.id (settings.eventInput source) = (.ok event, run') ∧
      span'.id = span.id ∧ run'.rootHash = none ∧
      run'.OneSpan settings (sources ++ [source]) .running span' := by
  have hallowed : run.addEventFault? span.id (settings.eventInput source) = none := by
    have hkind : (settings.eventInput source).kind.isEmpty = false := rfl
    simp [addEventFault?, isFinalized, hopen, h.span?_eq, h.status_eq, hkind]
  have hadded : run.addEvent id now span.id (settings.eventInput source) =
      (.ok (run.newEvent id now (settings.eventInput source)),
        run.enterEvent span.id (run.newEvent id now (settings.eventInput source))) := by
    rw [Run.addEvent, hallowed]
  rw [enterEvent_eq h.ids_nodup, h.map_changeAt] at hadded
  refine ⟨_, _, attach (run.newEvent id now (settings.eventInput source)) span, hadded, rfl, hopen, ?_⟩
  exact { h with
    spans_eq := rfl
    event_ids := by rw [attach, h.event_ids, List.map_append, List.map_singleton]
    records := List.rel_append h.records (.cons ⟨rfl, rfl, rfl, rfl⟩ .nil)
    event_seq := numbered_concat h.event_seq h.next_seq
    next_seq := by rw [h.next_seq, List.length_append, List.length_singleton] }

lemma OneSpan.closeSpan (h : run.OneSpan settings sources .running span)
    (hopen : run.rootHash = none) (now : Int) :
    ∃ run' span', run.closeSpan now span.id .completed = (.ok .completed, run') ∧
      run'.rootHash = none ∧ run'.OneSpan settings sources .completed span' := by
  have hclosed : run.closeSpan now span.id .completed =
      (.ok .completed, run.changeSpan span.id (run.closed now .completed)) := by
    simp [Run.closeSpan, h.span?_eq, h.status_eq]
  rw [changeSpan_eq h.ids_nodup, h.map_changeAt] at hclosed
  exact ⟨_, run.closed now .completed span, hclosed, hopen,
    { h with spans_eq := rfl, status_eq := rfl }⟩

lemma OneSpan.finalize (h : run.OneSpan settings sources .completed span)
    (hopen : run.rootHash = none) (readings : List Int) (now : Int) :
    ∃ final, run.finalize readings now = (.ok final.bundle, final) ∧
      final.OneSpan settings sources .completed span := by
  have hover : closeRunning run.spans readings run = (.ok (), run) := by
    rw [h.spans_eq]
    simp [closeRunning, h.status_eq]
  refine ⟨run.ended now, ?_, ?_⟩
  · simp [Run.finalize, isFinalized, hopen, hover]
  · exact { h with }

end Run

end Chronicle.Trace
