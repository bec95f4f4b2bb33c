import Chronicle.Json.Reader
import Chronicle.Redaction
import Chronicle.Spool.Event
import Chronicle.Time.Calendar

/-!
From a line of a session log to an event.

Logs name the same things differently, so several keys are tried for each field, and for some also an
object of further fields. What is hashed, and stored where the policy allows it, is the content, or the
whole line where there is no content.
-/

namespace Chronicle.Ingest

/-- What events say about where they come from. -/
def source : Bytes := utf8 "openclaw-jsonl"

/-- The kinds of events that are told apart; both names of a tool call count as one. -/
def normalizeKind (raw : Bytes) : Bytes :=
  if [utf8 "user", utf8 "assistant", utf8 "tool_result"].contains raw then raw
  else if [utf8 "tool", utf8 "tool_call"].contains raw then utf8 "tool_call"
  else utf8 "unknown"

/-- The first text under one of the keys that is not empty. -/
def firstText? (object : Json) (keys : List String) : Option Bytes :=
  keys.findSome? fun key =>
    ((object.find? (utf8 key)).bind Json.string?).filter fun text => !text.isEmpty

/-- The same, and then under one key of the object of further fields. -/
def firstTextOrExtra? (object : Json) (keys : List String) (extraKey : String) : Option Bytes :=
  (firstText? object keys).or <|
    ((object.find? (utf8 "meta")).filter Json.isObject).bind fun extra => firstText? extra [extraKey]

/-- What is hashed of a line. -/
def payloadOf (object : Json) : Bytes :=
  match object.find? (utf8 "content") with
  | some (.string text) => text
  | some .null | none => object.compact
  | some content => content.compact

/-- The event of a line, received at an instant; what is no JSON object has none. -/
def event? (redaction : Redaction) (now : Int) (line : Bytes) : Option Spool.Event := do
  let object ← Json.read? line
  if !object.isObject then none
  let kept := redaction.apply (payloadOf object)
  return {
    ts := (firstText? object ["ts", "timestamp"]).getD (Time.text now)
    kind := normalizeKind ((firstText? object ["kind", "type", "eventType"]).getD [])
    agentId := firstTextOrExtra? object ["agentId", "agent"] "agentId"
    sessionId := (firstTextOrExtra? object ["sessionId", "session"] "sessionId").getD []
    contentHash := kept.contentHash
    content := kept.content
    extra := some (.ofMembers [(utf8 "source", .string source)]) }

end Chronicle.Ingest
