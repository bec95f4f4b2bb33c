import Chronicle.Pattern.Token
import Chronicle.Pattern.Node

/-!
From the text of a pattern to its tree.

Besides what the grammar demands, a reference has to name a group that is already closed, a range
must not be reversed, a name in a bracket has to be known, and a pattern whose repetitions spell out
to more than `stateLimit` states is refused. A pattern is a sequence of alternatives; `none` means
that the text is no pattern.
-/

namespace Chronicle.Pattern

/-- The largest size of a pattern, counted in states. -/
def stateLimit : Nat := 100000

namespace Reader

/-- What is left to read, and what the part read so far has used up. -/
structure State where
  tokens : List Token
  /-- the index of the next group -/
  groups : Nat := 1
  /-- groups that are not closed yet -/
  opened : List Nat := []
  states : Nat := 3

/-- A tree with the number of states it needs. -/
structure Part where
  node : Node
  size : Nat

abbrev Reading := StateT State Option

def refuse {α : Type} : Reading α := fun _ => none

def peek : Reading (Option Token) := fun s => some (s.tokens.head?, s)

def skip : Reading Unit := modify fun s => { s with tokens := s.tokens.tail }

/-- Takes the next token if it is this one. -/
def accept (token : Token) : Reading Bool := do
  if (← peek) = some token then
    skip
    return true
  else return false

def expect (token : Token) : Reading Unit := do
  if ← accept token then return () else refuse

/-- Uses up states. -/
def charge (count : Nat) : Reading Unit := do
  let s ← get
  if stateLimit < s.states + count then refuse else set { s with states := s.states + count }

def leaf (node : Node) : Reading Part := do
  charge 1
  return ⟨node, 1⟩

/-- The value of a count or reference, below 2 ^ 31. -/
def number (digits : Bytes) : Reading Nat :=
  let value := digits.foldl (fun n b => n * 10 + (b.toNat - 48)) 0
  if value < 2147483648 then return value else refuse

/-! ### Brackets -/

/-- What came last in a bracket: a byte may start a range, a class must not. -/
inductive Last
  | nothing
  | byte (b : UInt8)
  | cls

/-- The byte that was held back in case it starts a range. -/
def Last.held : Last → List SetItem
  | .byte b => [.byte b]
  | _ => []

/-- Puts items before those read later. -/
def before (items : List SetItem) (read : Option (List SetItem × List Token)) :
    Option (List SetItem × List Token) :=
  read.map fun (later, rest) => (items ++ later, rest)

/-- The items of a bracket up to its end; the tokens behind it are left. -/
def bracketItems : List Token → Last → Option (List SetItem × List Token)
  | [], _ => none
  | .closeBracket :: rest, last => some (last.held, rest)
  | .bracketDash :: .closeBracket :: rest, last => some (last.held ++ [.byte Bytes.dash], rest)
  | .bracketDash :: .literal high :: rest, .byte low =>
    if signed low ≤ signed high then before [.range low high] (bracketItems rest .nothing) else none
  | .bracketDash :: .bracketDash :: rest, .byte low =>
    if signed low ≤ signed Bytes.dash then
      before [.range low Bytes.dash] (bracketItems rest .nothing)
    else none
  | .bracketDash :: rest, .nothing => bracketItems rest (.byte Bytes.dash)
  | .literal b :: rest, last => before last.held (bracketItems rest (.byte b))
  | .characterName name :: rest, last => do
    let b ← namedByte? name
    before last.held (bracketItems rest (.byte b))
  | .equivalenceName name :: rest, last => do
    let b ← namedByte? name
    before (last.held ++ [.alike b]) (bracketItems rest .cls)
  | .className name :: rest, last => do
    let cls ← ByteClass.ofName? name
    before (last.held ++ [.oneOf cls]) (bracketItems rest .cls)
  | .quotedClass negated cls :: rest, last =>
    before (last.held ++ [if negated then .noneOf cls else .oneOf cls]) (bracketItems rest .cls)
  | _ :: _, _ => none

/-- A set in brackets; a dash in front stands for itself. -/
def bracket (negated : Bool) : Reading Part := fun s =>
  match bracketItems s.tokens .nothing with
  | none => none
  | some (items, rest) => (leaf (.one ⟨items, negated⟩)).run { s with tokens := rest }

/-! ### Repetitions -/

/-- The bounds of a counted repetition: the least number and, if there is one, the greatest. -/
def bounds : Reading (Nat × Option Nat) := do
  let least ← count
  if ← accept .comma then
    if ← accept .closeBrace then return (least, none)
    let most ← count
    expect .closeBrace
    if most < least then refuse
    return (least, some most)
  expect .closeBrace
  return (least, some least)
where
  count : Reading Nat := do
    match ← peek with
    | some (.count digits) =>
      skip
      number digits
    | _ => refuse

/-- A question mark behind a repetition makes it prefer fewer rounds. -/
def greedy : Reading Bool := do
  return !(← accept .optional)

/-- A counted repetition, spelled out. -/
def counted (part : Part) : Reading Part := do
  let (least, most) ← bounds
  let greedy ← greedy
  let size := match most with
    | none => 1 + least * part.size + (part.size + 1)
    | some most => 1 + least * part.size + (1 + (most - least) * (part.size + 1))
  charge size
  let last := match most with
    | none => Node.star 0 greedy part.node
    | some most => Node.upTo greedy part.node (most - least)
  return ⟨Node.copies part.node last least, size⟩

/-- Applies the repetitions that follow a part, one over the other. -/
def repetitions : Nat → Part → Reading Part
  | 0, _ => refuse
  | steps + 1, part => do
    if ← accept .repeatAny then
      charge 1
      repetitions steps ⟨.star 0 (← greedy) part.node, part.size + 1⟩
    else if ← accept .repeatSome then
      charge 1
      repetitions steps ⟨.plus 0 (← greedy) part.node, part.size + 1⟩
    else if ← accept .optional then
      charge 2
      repetitions steps ⟨.opt 0 (← greedy) part.node, part.size + 2⟩
    else if ← accept .openBrace then
      repetitions steps (← counted part)
    else return part

/-! ### The grammar -/

/-- Reads a reference to a closed group. -/
def reference (digits : Bytes) : Reading Part := do
  let index ← number digits
  let s ← get
  if index < s.groups && !s.opened.contains index then leaf (.reference index) else refuse

mutual

/-- Alternatives, the first one preferred. -/
def disjunction : Nat → Reading Part
  | 0 => refuse
  | steps + 1 => do
    let first ← sequence steps
    alternatives steps first

def alternatives : Nat → Part → Reading Part
  | 0, _ => refuse
  | steps + 1, first => do
    if ← accept .alternative then
      let second ← sequence steps
      charge 2
      alternatives steps ⟨.alt first.node second.node, first.size + second.size + 2⟩
    else return first

/-- Terms in a row, possibly none. -/
def sequence : Nat → Reading Part
  | 0 => refuse
  | steps + 1 => do
    match ← term steps with
    | none => leaf .empty
    | some first =>
      let second ← sequence steps
      return ⟨.seq first.node second.node, first.size + second.size⟩

/-- An assertion, or an atom with its repetitions; nothing where no term starts. -/
def term : Nat → Reading (Option Part)
  | 0 => refuse
  | steps + 1 => do
    match ← peek with
    | some .lineStart => skip; some <$> leaf .lineStart
    | some .lineEnd => skip; some <$> leaf .lineEnd
    | some (.boundary negated) => skip; some <$> leaf (.boundary negated)
    | some (.openLook negated) =>
      skip
      let body ← disjunction steps
      expect .close
      charge 2
      return some ⟨.look negated body.node, body.size + 2⟩
    | _ =>
      match ← atom steps with
      | none => return none
      | some part => some <$> repetitions steps part

def atom : Nat → Reading (Option Part)
  | 0 => refuse
  | steps + 1 => do
    match ← peek with
    | some .anyByte => skip; some <$> leaf (.one .any)
    | some (.literal b) => skip; some <$> leaf (.one (.single b))
    | some (.reference digits) => skip; some <$> reference digits
    | some (.quotedClass negated cls) => skip; some <$> leaf (.one ⟨[.oneOf cls], negated⟩)
    | some .openPlain =>
      skip
      let body ← disjunction steps
      expect .close
      charge 1
      return some ⟨body.node, body.size + 1⟩
    | some .openGroup =>
      skip
      let index := (← get).groups
      modify fun s => { s with groups := index + 1, opened := index :: s.opened }
      let body ← disjunction steps
      expect .close
      modify fun s => { s with opened := s.opened.erase index }
      charge 2
      return some ⟨.group index body.node, body.size + 2⟩
    | some (.openBracket negated) => skip; some <$> bracket negated
    | _ => return none

end

/-- The whole text as one pattern. -/
def whole (tokens : List Token) : Reading Node := do
  let part ← disjunction (4 * (tokens.length + 2))
  match (← get).tokens with
  | [] => return (part.node.numbered 0).1
  | _ :: _ => refuse

end Reader

/-- Reads a pattern. -/
def read? (text : Bytes) : Option Node := do
  let tokens ← Lexer.tokens? text
  let (node, _) ← (Reader.whole tokens).run { tokens := tokens }
  some node

end Chronicle.Pattern
