import Chronicle.Trace.Types
import Chronicle.Sorted

/-!
The public view of a run.

Public spans are shown in the order of their numbers. Of the other spans only the identifier and the
hash are shown, sorted by identifier so that their place says nothing.
-/

namespace Chronicle.Trace

/-- Ascending numbers. -/
def Span.earlier (a b : Span) : Bool := decide (a.spanSeq < b.spanSeq)

def RedactedSpan.precedes (a b : RedactedSpan) : Bool := Bytes.precedes a.spanId b.spanId

/-- What is shown of a span that is not public; nothing as long as it has no hash. -/
def Span.redacted? (span : Span) : Option RedactedSpan :=
  if span.visibility = .shown then none else span.hash.map fun hash => ⟨span.id, hash⟩

/-- What others may see of a run. -/
def Run.publicView (run : Run) (merkleRoot : Bytes) : PublicView where
  runId := run.id
  agentId := run.agentId
  schemaVersion := run.schemaVersion
  startedAt := run.startedAt
  endedAt := run.endedAt.getD run.startedAt
  durationMs := run.durationMs.getD 0
  status := run.status
  totalEvents := run.events.length
  totalSpans := run.spans.length
  rootHash := run.rootHash.getD []
  merkleRoot := merkleRoot
  publicSpans := sortBy Span.earlier (run.spans.filter fun span => span.visibility = .shown)
  redactedSpans := sortBy RedactedSpan.precedes (run.spans.filterMap Span.redacted?)

end Chronicle.Trace
