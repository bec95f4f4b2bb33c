import Chronicle.Pattern.Reader

/-!
Searching a byte string for a pattern.

The search backtracks: a node is run at a spot of the text with a continuation that runs the rest of
the pattern, and the first way through in order of preference wins. A loop may start at most two
rounds at one spot, so rounds that take nothing come to an end; the rounds a loop has started are
kept in the spot, by the loop's number, and so are forgotten on the way back.

Only a search's first attempt, at the start of the text, sees a start of line; what follows from a
later attempt sees the byte before it.
-/

namespace Chronicle.Pattern

/-- A place in the text and what the way to it has left behind. -/
structure Spot where
  /-- the bytes ahead -/
  rest : Bytes
  /-- how many bytes have been taken -/
  position : Nat
  /-- the byte in front, if it may be looked at -/
  previous : Option UInt8
  /-- what groups have matched, the latest first -/
  captures : List (Nat × Bytes)
  /-- for a loop, where it last started rounds and how many of them there -/
  rounds : List (Nat × Nat × Nat)
  deriving DecidableEq, Repr

namespace Spot

/-- The spot behind the next bytes. -/
def advance (spot : Spot) (count : Nat) : Spot :=
  let taken := spot.rest.take count
  { spot with
    rest := spot.rest.drop count
    position := spot.position + taken.length
    previous := taken.getLast?.or spot.previous }

/-- Notes a new round of a loop, unless two have started here. -/
def startRound? (spot : Spot) (loop : Nat) : Option Spot :=
  let others := spot.rounds.filter fun entry => entry.1 != loop
  match spot.rounds.lookup loop with
  | some (position, count) =>
    if position != spot.position then some { spot with rounds := (loop, spot.position, 1) :: others }
    else if count < 2 then some { spot with rounds := (loop, position, count + 1) :: others }
    else none
  | none => some { spot with rounds := (loop, spot.position, 1) :: others }

def isWord : Option UInt8 → Bool
  | some b => ByteClass.word.has b
  | none => false

/-- Whether exactly one of the neighbouring bytes belongs to a word. -/
def atBoundary (spot : Spot) : Bool := isWord spot.previous != isWord spot.rest.head?

end Spot

/-- What is left to match behind a node. -/
abbrev Continuation := Spot → Option Spot

/-- Rounds of a loop whose body is `round`, as many as `fuel` allows. -/
def loopRounds (loop : Nat) (greedy : Bool) (round : Spot → Continuation → Option Spot) :
    Nat → Spot → Continuation → Option Spot
  | 0, spot, next => next spot
  | fuel + 1, spot, next =>
    let again := fun (_ : Unit) =>
      (spot.startRound? loop).bind fun spot =>
        round spot fun spot => loopRounds loop greedy round fuel spot next
    if greedy then again () <|> next spot else next spot <|> again ()

/-- Enough for two rounds at every spot ahead. -/
def roundLimit (spot : Spot) : Nat := 2 * (spot.rest.length + 1)

/-- Runs a node; `first` says that the attempt began at the start of the text. -/
def run (first : Bool) : Node → Spot → Continuation → Option Spot
  | .empty, spot, next => next spot
  | .one set, spot, next =>
    match spot.rest with
    | [] => none
    | b :: rest =>
      if set.has b then
        next { spot with rest := rest, position := spot.position + 1, previous := some b }
      else none
  | .seq a b, spot, next => run first a spot fun spot => run first b spot next
  | .alt a b, spot, next => run first a spot next <|> run first b spot next
  | .group index body, spot, next =>
    run first body spot fun reached =>
      let text := spot.rest.take (reached.position - spot.position)
      next { reached with captures := (index, text) :: reached.captures }
  | .star loop greedy body, spot, next =>
    loopRounds loop greedy (run first body) (roundLimit spot) spot next
  | .plus loop greedy body, spot, next =>
    run first body spot fun spot =>
      loopRounds loop greedy (run first body) (roundLimit spot) spot next
  | .opt loop greedy body, spot, next =>
    let once := fun (_ : Unit) => (spot.startRound? loop).bind fun spot => run first body spot next
    if greedy then once () <|> next spot else next spot <|> once ()
  | .lineStart, spot, next => if spot.previous.isNone then next spot else none
  | .lineEnd, spot, next => if spot.rest.isEmpty then next spot else none
  | .boundary negated, spot, next => if spot.atBoundary != negated then next spot else none
  | .look negated body, spot, next =>
    let previous := if first then none else spot.previous
    match run first body { spot with previous := previous, rounds := [] } some, negated with
    | some reached, false => next { spot with captures := reached.captures }
    | none, true => next spot
    | _, _ => none
  | .reference index, spot, next =>
    match spot.captures.lookup index with
    | none => none
    | some text => if text.isPrefixOf spot.rest then next (spot.advance text.length) else none

/-- Attempts at the spots behind the first one. -/
def laterAttempts (node : Node) : UInt8 → Bytes → Bool
  | previous, text =>
    (run false node ⟨text, 0, some previous, [], []⟩ some).isSome ||
      match text with
      | [] => false
      | b :: rest => laterAttempts node b rest

/-- Whether the pattern matches somewhere in the text. -/
def found (node : Node) (text : Bytes) : Bool :=
  (run true node ⟨text, 0, none, [], []⟩ some).isSome ||
    match text with
    | [] => false
    | b :: rest => laterAttempts node b rest

end Chronicle.Pattern
