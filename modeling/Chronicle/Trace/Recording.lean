import Chronicle.Trace.Fault
import Chronicle.Trace.Hash
import Chronicle.Trace.View
import Chronicle.Time.Calendar

/-!
Recording a trace: a run is created, spans are added and closed, events are added to open spans, and in
the end the run is finalized into a bundle.

Identifiers and the time are handed in. An operation gives its result together with the run as it leaves
it, also when it is refused.
-/

namespace Chronicle.Trace

structure SpanOptions where
  name : Bytes
  visibility : Visibility := .hidden
  parentSpanId : Option Bytes := none
  deriving DecidableEq, Repr

structure EventInput where
  kind : Bytes := utf8 "custom"
  eventType : Bytes := []
  data : Json := Json.emptyObject
  visibility : Visibility := .hidden
  deriving Repr

namespace Run

def isFinalized (run : Run) : Bool := run.rootHash.isSome

/-- The first span with an identifier. -/
def span? (run : Run) (id : Bytes) : Option Span := run.spans.find? fun span => span.id == id

/-- Changes the first span with an identifier. -/
def changeFirst (id : Bytes) (change : Span → Span) : List Span → List Span
  | [] => []
  | span :: rest => if span.id = id then change span :: rest else span :: changeFirst id change rest

def changeSpan (run : Run) (id : Bytes) (change : Span → Span) : Run :=
  { run with spans := changeFirst id change run.spans }

def lastEvent? (run : Run) (id : Bytes) : Option Event :=
  run.events.reverse.find? fun event => event.id == id

/-- The hashes of the events of a span, by the numbers of the events. -/
def eventHashes (run : Run) (span : Span) : List Bytes :=
  (sortBy (fun a b : Event => decide (a.seq < b.seq)) (span.eventIds.filterMap run.lastEvent?)).map
    (·.hash)

/-! ### Creating -/

/-- A new run without spans and events. -/
def create (id : Bytes) (now : Int) (agentId : Bytes) : Except Fault Run :=
  if agentId.isEmpty then .error .emptyAgent
  else .ok
    { id := id
      agentId := agentId
      startedAt := Time.text now
      rollingHash := genesisHash
      startedUnixMs := now }

/-! ### Spans -/

/-- Why a span with this parent cannot be added. -/
def parentFault? (run : Run) : Option Bytes → Option Fault
  | none => none
  | some parent =>
    match run.span? parent with
    | none => some (.unknownParent parent)
    | some span => if span.status = .running then none else some (.closedParent parent)

/-- Why a span cannot be added. -/
def addSpanFault? (run : Run) (options : SpanOptions) : Option Fault :=
  if run.isFinalized then some (.spanAfterEnd run.id)
  else if options.name.isEmpty then some .emptySpanName
  else run.parentFault? options.parentSpanId

def newSpan (run : Run) (id : Bytes) (now : Int) (options : SpanOptions) : Span where
  id := id
  spanSeq := run.nextSpanSeq
  name := options.name
  status := .running
  visibility := options.visibility
  startedAt := Time.text now
  endedAt := none
  durationMs := none
  parentSpanId := options.parentSpanId
  eventIds := []
  childSpanIds := []
  hash := none
  startedUnixMs := now

/-- Lists a span and enters it with its parent. -/
def enterSpan (run : Run) (span : Span) : Run :=
  let run := { run with nextSpanSeq := run.nextSpanSeq + 1, spans := run.spans ++ [span] }
  match span.parentSpanId with
  | none => run
  | some parent =>
    run.changeSpan parent fun parent => { parent with childSpanIds := parent.childSpanIds ++ [span.id] }

/-- Adds an open span, below an open parent if one is given. -/
def addSpan (id : Bytes) (now : Int) (options : SpanOptions) (run : Run) :
    Except Fault Span × Run :=
  match run.addSpanFault? options with
  | some fault => (.error fault, run)
  | none =>
    let span := run.newSpan id now options
    (.ok span, run.enterSpan span)

/-! ### Events -/

/-- Why an event cannot be added to a span. -/
def addEventFault? (run : Run) (spanId : Bytes) (input : EventInput) : Option Fault :=
  if run.isFinalized then some (.eventAfterEnd run.id)
  else match run.span? spanId with
    | none => some (.unknownSpan spanId)
    | some span =>
      if span.status ≠ .running then some (.eventOnClosed spanId span.status)
      else if input.kind.isEmpty then some .emptyEventKind
      else none

/-- An event with its hash. -/
def newEvent (run : Run) (id : Bytes) (now : Int) (input : EventInput) : Event :=
  let event : Event :=
    { id := id
      seq := run.nextSeq
      kind := input.kind
      eventType := input.eventType
      data := input.data
      visibility := input.visibility
      timestamp := Time.text now
      hash := [] }
  { event with hash := eventHash event }

/-- Lists an event, enters it with its span and chains its hash. -/
def enterEvent (run : Run) (spanId : Bytes) (event : Event) : Run :=
  let run := run.changeSpan spanId fun span => { span with eventIds := span.eventIds ++ [event.id] }
  { run with
    nextSeq := run.nextSeq + 1
    rollingHash := roll run.rollingHash event.hash
    events := run.events ++ [event] }

/-- Adds an event to an open span. -/
def addEvent (id : Bytes) (now : Int) (spanId : Bytes) (input : EventInput) (run : Run) :
    Except Fault Event × Run :=
  match run.addEventFault? spanId input with
  | some fault => (.error fault, run)
  | none =>
    let event := run.newEvent id now input
    (.ok event, run.enterEvent spanId event)

/-! ### Closing -/

/-- A span that ends now, with its hash. -/
def closed (run : Run) (now : Int) (status : Status) (span : Span) : Span :=
  let ended := { span with
    status := status
    endedAt := some (Time.text now)
    durationMs := some (now - span.startedUnixMs) }
  { ended with hash := some (spanHash ended (run.eventHashes ended)) }

/-- Closes an open span with a status that is final. -/
def closeSpan (now : Int) (spanId : Bytes) (status : Status) (run : Run) :
    Except Fault Status × Run :=
  match run.span? spanId with
  | none => (.error (.unknownSpan spanId), run)
  | some span =>
    if span.status ≠ .running then (.error (.closedTwice spanId span.status), run)
    else if status = .running then (.error .closedAsRunning, run)
    else (.ok status, run.changeSpan spanId (run.closed now status))

/-- Closes those of the given spans that are running, each at the next reading of the clock. -/
def closeRunning : List Span → List Int → Run → Except Fault Unit × Run
  | [], _, run => (.ok (), run)
  | span :: rest, readings, run =>
    if span.status ≠ .running then closeRunning rest readings run
    else match run.closeSpan (readings.headD 0) span.id .completed with
      | (.error fault, run) => (.error fault, run)
      | (.ok _, run) => closeRunning rest readings.tail run

/-! ### Finalizing -/

/-- The hashes of all spans, by the numbers of the spans. -/
def spanHashes (run : Run) : List Bytes := (sortBy Span.earlier run.spans).map (·.hash.getD [])

/-- The run with its end and its root hash. -/
def ended (run : Run) (now : Int) : Run :=
  { run with
    status := .completed
    endedAt := some (Time.text now)
    durationMs := some (now - run.startedUnixMs)
    rootHash := some (Trace.rootHash run.rollingHash run.spanHashes) }

/-- The bundle of a run that has ended. -/
def bundle (run : Run) : Bundle where
  publicView := run.publicView (Trace.merkleRoot run.spanHashes)
  privateRun := run
  merkleRoot := Trace.merkleRoot run.spanHashes
  rootHash := run.rootHash.getD []

/-- Closes what is still open and ends the run, at readings of the clock and then at `now`. -/
def finalize (readings : List Int) (now : Int) (run : Run) : Except Fault Bundle × Run :=
  if run.isFinalized then (.error (.finalizedTwice run.id), run)
  else match closeRunning run.spans readings run with
    | (.error fault, run) => (.error fault, run)
    | (.ok _, run) => (.ok (run.ended now).bundle, run.ended now)

end Run

end Chronicle.Trace
