import Chronicle.Trace.Types
import Chronicle.Json.Printer

/-!
Traces as JSON documents.

Fields that are not set are left out, and so is an empty hash.
-/

namespace Chronicle.Trace

/-- A member for a value that is set. -/
def optionalMember (key : String) (value : Option Json) : List (Bytes × Json) :=
  value.toList.map fun value => (utf8 key, value)

def member (key : String) (value : Json) : Bytes × Json := (utf8 key, value)

def strings (texts : List Bytes) : Json := .array (texts.map .string)

/-- An event without its hash. -/
def Event.body (event : Event) : List (Bytes × Json) :=
  [member "id" (.string event.id), member "seq" (.nat event.seq), member "kind" (.string event.kind),
   member "eventType" (.string event.eventType), member "data" event.data,
   member "visibility" (.string event.visibility.name),
   member "timestamp" (.string event.timestamp)]

def Event.document (event : Event) : Json :=
  .ofMembers (event.body ++ if event.hash.isEmpty then [] else [member "hash" (.string event.hash)])

/-- A span without its hash. -/
def Span.header (span : Span) : List (Bytes × Json) :=
  [member "id" (.string span.id), member "spanSeq" (.nat span.spanSeq),
   member "name" (.string span.name), member "status" (.string span.status.name),
   member "visibility" (.string span.visibility.name), member "startedAt" (.string span.startedAt),
   member "eventIds" (strings span.eventIds), member "childSpanIds" (strings span.childSpanIds)]
    ++ optionalMember "endedAt" (span.endedAt.map .string)
    ++ optionalMember "durationMs" (span.durationMs.map .number)
    ++ optionalMember "parentSpanId" (span.parentSpanId.map .string)

def Span.document (span : Span) : Json :=
  .ofMembers (span.header ++ optionalMember "hash" (span.hash.map .string))

def Run.document (run : Run) : Json :=
  .ofMembers <|
    [member "id" (.string run.id), member "schemaVersion" (.string run.schemaVersion),
     member "agentId" (.string run.agentId), member "status" (.string run.status.name),
     member "startedAt" (.string run.startedAt), member "rollingHash" (.string run.rollingHash),
     member "nextSeq" (.nat run.nextSeq), member "nextSpanSeq" (.nat run.nextSpanSeq),
     member "events" (.array (run.events.map Event.document)),
     member "spans" (.array (run.spans.map Span.document))]
      ++ optionalMember "endedAt" (run.endedAt.map .string)
      ++ optionalMember "durationMs" (run.durationMs.map .number)
      ++ optionalMember "rootHash" (run.rootHash.map .string)

def RedactedSpan.document (span : RedactedSpan) : Json :=
  .ofMembers [member "spanId" (.string span.spanId), member "hash" (.string span.hash)]

def PublicView.document (view : PublicView) : Json :=
  .ofMembers
    [member "runId" (.string view.runId), member "agentId" (.string view.agentId),
     member "schemaVersion" (.string view.schemaVersion), member "startedAt" (.string view.startedAt),
     member "endedAt" (.string view.endedAt), member "durationMs" (.number view.durationMs),
     member "status" (.string view.status.name), member "totalEvents" (.nat view.totalEvents),
     member "totalSpans" (.nat view.totalSpans), member "rootHash" (.string view.rootHash),
     member "merkleRoot" (.string view.merkleRoot),
     member "publicSpans" (.array (view.publicSpans.map Span.document)),
     member "redactedSpanHashes" (.array (view.redactedSpans.map RedactedSpan.document))]

/-- A bundle without the hash of its manifest. -/
def Bundle.body (bundle : Bundle) : List (Bytes × Json) :=
  [member "formatVersion" (.string bundle.version), member "publicView" bundle.publicView.document,
   member "privateRun" bundle.privateRun.document, member "merkleRoot" (.string bundle.merkleRoot),
   member "rootHash" (.string bundle.rootHash)]

def Bundle.document (bundle : Bundle) : Json :=
  .ofMembers (bundle.body ++ optionalMember "manifestHash" (bundle.manifestHash.map .string))

/-- The bytes that a manifest describes; they do not depend on the manifest. -/
def Bundle.content (bundle : Bundle) : Bytes := (Json.ofMembers bundle.body).compact

end Chronicle.Trace
