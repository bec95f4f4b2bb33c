import Chronicle.Bytes

/-!
Log lines: a label for the severity, the tag of the work in hand, and the message.

Severities are ranked by a number. Ranks without a label of their own are still ordered by it, so
a logger shows a line exactly when its rank is not below the least rank it was set to.
-/

namespace Chronicle.Log

/-- How severe a line is. -/
structure Level where
  rank : Int
  deriving DecidableEq, Repr

namespace Level

def debug : Level := ⟨0⟩
def info : Level := ⟨1⟩
def warning : Level := ⟨2⟩
def error : Level := ⟨3⟩

/-- Labels of the known levels have one width. -/
def label (level : Level) : Bytes :=
  if level = debug then utf8 "DEBUG"
  else if level = info then utf8 "INFO "
  else if level = warning then utf8 "WARN "
  else if level = error then utf8 "ERROR"
  else utf8 "UNKNOWN"

end Level

/-- The two streams a line can go to. -/
inductive Stream
  | output
  | errors
  deriving DecidableEq, Repr

/-- Warnings and everything above go to the error stream. -/
def Level.stream (level : Level) : Stream :=
  if Level.warning.rank ≤ level.rank then .errors else .output

structure Logger where
  /-- The tag on every line, left out when empty. -/
  context : Bytes := []
  least : Level := Level.info
  deriving DecidableEq, Repr

def Logger.shows (logger : Logger) (level : Level) : Bool := decide (logger.least.rank ≤ level.rank)

/-- A line without its terminator. -/
def Logger.line (logger : Logger) (level : Level) (message : Bytes) : Bytes :=
  let tag := if logger.context.isEmpty then [] else utf8 "[" ++ logger.context ++ utf8 "] "
  utf8 "[" ++ level.label ++ utf8 "] " ++ tag ++ message

end Chronicle.Log
