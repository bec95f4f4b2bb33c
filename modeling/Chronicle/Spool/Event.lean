import Chronicle.Trace.Document

/-!
Events as they are spooled: what was extracted from one line of a log.
-/

namespace Chronicle.Spool

structure Event where
  ts : Bytes
  kind : Bytes
  agentId : Option Bytes := none
  sessionId : Bytes := []
  contentHash : Bytes := []
  /-- absent when only the hash is kept -/
  content : Option Bytes := none
  /-- an object -/
  extra : Option Json := none
  deriving Repr

namespace Event

open Trace (member optionalMember)

def document (event : Event) : Json :=
  .ofMembers <|
    [member "ts" (.string event.ts), member "kind" (.string event.kind)]
      ++ optionalMember "agentId" (event.agentId.map .string)
      ++ [member "sessionId" (.string event.sessionId),
          member "contentHash" (.string event.contentHash)]
      ++ optionalMember "content" (event.content.map .string)
      ++ optionalMember "meta" event.extra

/-- Reads an event back. Kind and content hash have to be there; what has a wrong type is absent. -/
def ofDocument? (document : Json) : Option Event := do
  let text? (key : String) : Option Bytes := (document.find? (utf8 key)).bind Json.string?
  let kind ← text? "kind"
  let contentHash ← text? "contentHash"
  return {
    ts := (text? "ts").getD []
    kind := kind
    agentId := text? "agentId"
    sessionId := (text? "sessionId").getD []
    contentHash := contentHash
    content := text? "content"
    extra := (document.find? (utf8 "meta")).filter Json.isObject }

/-- What a trace keeps of an event; there is always an object for what else is known. -/
def payload (event : Event) : Json :=
  .ofMembers <|
    [member "kind" (.string event.kind), member "sessionId" (.string event.sessionId),
     member "contentHash" (.string event.contentHash)]
      ++ optionalMember "content" (event.content.map .string)
      ++ [member "meta" (event.extra.getD .emptyObject)]

/-- An event as a line of a spool. -/
def line (event : Event) : Bytes := event.document.compact ++ [Bytes.newline]

end Event

/-- Events as the lines of a spool. -/
def lines (events : List Event) : Bytes := events.flatMap Event.line

end Chronicle.Spool
