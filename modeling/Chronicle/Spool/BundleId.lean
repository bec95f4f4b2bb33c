import Chronicle.Spool.Event
import Chronicle.Time.Calendar

/-!
Bundle identifiers: a day and an agent, with a separator between them.

The day is taken from the beginning of an event's timestamp if it looks like one, and slashes in the name
of an agent are replaced, so that an identifier can be the name of a file.
-/

namespace Chronicle.Spool

def separator : Bytes := utf8 "__"
def unknownAgent : Bytes := utf8 "unknown"

/-- Whether a text starts with four digits, two digits and two digits, with dashes between. -/
def startsWithDay : Bytes → Bool
  | y1 :: y2 :: y3 :: y4 :: dash1 :: m1 :: m2 :: dash2 :: d1 :: d2 :: _ =>
    dash1 == Bytes.dash && dash2 == Bytes.dash &&
      [y1, y2, y3, y4, m1, m2, d1, d2].all Bytes.isDigit
  | _ => false

/-- The day of a timestamp, or the given one. -/
def dayOf (ts today : Bytes) : Bytes := if startsWithDay ts then ts.take 10 else today

def isSlash (b : UInt8) : Bool := b == Bytes.slash || b == Bytes.backslash

/-- The name of an agent with underscores for slashes. -/
def agentPart (agent : Option Bytes) : Bytes :=
  let name := (agent.getD unknownAgent).map fun b => if isSlash b then 95 else b
  if name.isEmpty then unknownAgent else name

/-- The day of an instant, as its text begins. -/
def todayAt (now : Int) : Bytes := (Time.text now).take 10

/-- The identifier of the bundle an event belongs to. -/
def bundleId (today : Bytes) (event : Event) : Bytes :=
  dayOf event.ts today ++ separator ++ agentPart event.agentId

/-- The agent that a bundle is recorded under: what follows the first separator. -/
def agentOf (bundleId : Bytes) : Bytes :=
  let agent := match Bytes.find? separator bundleId with
    | some place => bundleId.drop (place + separator.length)
    | none => []
  utf8 "openclaw:" ++ if agent.isEmpty then unknownAgent else agent

/-- Whether an identifier can be the name of a file in the spool. -/
def isSafe (bundleId : Bytes) : Bool :=
  !bundleId.isEmpty && !bundleId.any isSlash && bundleId != [Bytes.dot] &&
    bundleId != [Bytes.dot, Bytes.dot]

end Chronicle.Spool
