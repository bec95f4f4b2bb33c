import Chronicle.Trace.Types

/-!
Why an operation on a trace is refused.
-/

namespace Chronicle.Trace

inductive Fault
  | emptyAgent
  | emptySpanName
  | emptyEventKind
  /-- a span cannot be closed with the status of an open one -/
  | closedAsRunning
  | spanAfterEnd (run : Bytes)
  | eventAfterEnd (run : Bytes)
  | finalizedTwice (run : Bytes)
  | unknownParent (span : Bytes)
  | closedParent (span : Bytes)
  | unknownSpan (span : Bytes)
  | eventOnClosed (span : Bytes) (status : Status)
  | closedTwice (span : Bytes) (status : Status)
  deriving DecidableEq, Repr

namespace Fault

def category : Fault → Category
  | emptyAgent | emptySpanName | emptyEventKind | closedAsRunning => .input
  | _ => .trace

def withStatus (span : Bytes) (status : Status) : Bytes :=
  span ++ utf8 " (status: " ++ status.name ++ utf8 ")"

def message : Fault → Bytes
  | emptyAgent => utf8 "Agent ID cannot be empty."
  | emptySpanName => utf8 "Span name cannot be empty."
  | emptyEventKind => utf8 "Event kind cannot be empty."
  | closedAsRunning => utf8 "Span cannot be closed with status running."
  | spanAfterEnd run => utf8 "Cannot add span to finalized run: " ++ run
  | eventAfterEnd run => utf8 "Cannot add event to finalized run: " ++ run
  | finalizedTwice run => utf8 "Trace run is already finalized: " ++ run
  | unknownParent span => utf8 "Parent span not found: " ++ span
  | closedParent span => utf8 "Parent span is not running: " ++ span
  | unknownSpan span => utf8 "Span not found: " ++ span
  | eventOnClosed span status => utf8 "Cannot add event to closed span: " ++ withStatus span status
  | closedTwice span status => utf8 "Span already closed: " ++ withStatus span status

def code : Fault → Bytes
  | emptyAgent => utf8 "invalid_agent_id"
  | emptySpanName => utf8 "invalid_span_name"
  | emptyEventKind => utf8 "invalid_event_kind"
  | closedAsRunning => utf8 "invalid_span_status"
  | spanAfterEnd _ | eventAfterEnd _ | finalizedTwice _ => utf8 "run_finalized"
  | unknownParent _ | unknownSpan _ => utf8 "span_not_found"
  | closedParent _ | eventOnClosed _ _ | closedTwice _ _ => utf8 "span_closed"

def problem (fault : Fault) : Problem where
  category := fault.category
  message := fault.message
  code := fault.code

end Fault

end Chronicle.Trace
