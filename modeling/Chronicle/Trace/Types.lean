import Chronicle.Json.Value
import Chronicle.Problem

/-!
What a trace consists of: a run with its spans and events, and what is shown of it to others.

An event belongs to one span, and spans form a forest by their parents. Events and spans are numbered
in the order in which they were added. A span that is not running any more has an end and a hash, and
a run that has been finalized has a root hash.
-/

namespace Chronicle.Trace

/-- Who may see a span or an event. -/
inductive Visibility
  | shown
  | hidden
  | secret
  deriving DecidableEq, Repr

namespace Visibility

def all : List Visibility := [shown, hidden, secret]

def name : Visibility → Bytes
  | shown => utf8 "public"
  | hidden => utf8 "private"
  | secret => utf8 "secret"

/-- The visibility of a name. -/
def ofName? (text : Bytes) : Option Visibility := all.find? fun visibility => visibility.name == text

end Visibility

/-- Where a run or a span is in its life; everything but running is final. -/
inductive Status
  | running
  | completed
  | failed
  | cancelled
  deriving DecidableEq, Repr

namespace Status

def all : List Status := [running, completed, failed, cancelled]

def name : Status → Bytes
  | running => utf8 "running"
  | completed => utf8 "completed"
  | failed => utf8 "failed"
  | cancelled => utf8 "cancelled"

/-- The status of a name. -/
def ofName? (text : Bytes) : Option Status := all.find? fun status => status.name == text

end Status

def formatVersion : Bytes := utf8 "1.0"

structure Event where
  id : Bytes
  seq : Nat
  kind : Bytes
  eventType : Bytes
  data : Json
  visibility : Visibility
  timestamp : Bytes
  /-- empty until it has been computed -/
  hash : Bytes
  deriving Repr

structure Span where
  id : Bytes
  spanSeq : Nat
  name : Bytes
  status : Status
  visibility : Visibility
  startedAt : Bytes
  endedAt : Option Bytes
  durationMs : Option Int
  parentSpanId : Option Bytes
  eventIds : List Bytes
  childSpanIds : List Bytes
  hash : Option Bytes
  /-- the instant of the start, for the duration only -/
  startedUnixMs : Int
  deriving DecidableEq, Repr

structure Run where
  id : Bytes := []
  schemaVersion : Bytes := formatVersion
  agentId : Bytes := []
  status : Status := .running
  startedAt : Bytes := []
  endedAt : Option Bytes := none
  durationMs : Option Int := none
  events : List Event := []
  spans : List Span := []
  rollingHash : Bytes := []
  /-- set once the run is finalized -/
  rootHash : Option Bytes := none
  nextSeq : Nat := 0
  nextSpanSeq : Nat := 0
  startedUnixMs : Int := 0
  deriving Repr

/-- What is shown of a span that is not public. -/
structure RedactedSpan where
  spanId : Bytes
  hash : Bytes
  deriving DecidableEq, Repr

/-- A summary that may be shared: public spans in full, the others by their hashes. -/
structure PublicView where
  runId : Bytes := []
  agentId : Bytes := []
  schemaVersion : Bytes := []
  startedAt : Bytes := []
  endedAt : Bytes := []
  durationMs : Int := 0
  status : Status := .completed
  totalEvents : Nat := 0
  totalSpans : Nat := 0
  rootHash : Bytes := []
  merkleRoot : Bytes := []
  publicSpans : List Span := []
  redactedSpans : List RedactedSpan := []
  deriving DecidableEq, Repr

/-- A finalized run with its public view and the roots of its hashes. -/
structure Bundle where
  version : Bytes := formatVersion
  publicView : PublicView := {}
  privateRun : Run := {}
  merkleRoot : Bytes := []
  rootHash : Bytes := []
  manifestHash : Option Bytes := none
  deriving Repr

end Chronicle.Trace
