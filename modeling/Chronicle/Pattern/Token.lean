import Chronicle.Pattern.ByteSet

/-!
Tokens of a pattern.

Brackets and braces switch the lexer to tokens of their own until they are closed; the switch depends
on the bytes alone. A text that no token starts with is refused.
-/

namespace Chronicle.Pattern

inductive Token
  /-- one certain byte -/
  | literal (b : UInt8)
  /-- the number of an earlier group, unread -/
  | reference (digits : Bytes)
  | quotedClass (negated : Bool) (cls : ByteClass)
  | boundary (negated : Bool)
  | lineStart
  | lineEnd
  | anyByte
  | repeatAny
  | repeatSome
  | optional
  | alternative
  | openGroup
  | openPlain
  | openLook (negated : Bool)
  | close
  | openBracket (negated : Bool)
  | closeBracket
  | bracketDash
  /-- the name of a character, of a class or of an equivalence class -/
  | characterName (name : Bytes)
  | className (name : Bytes)
  | equivalenceName (name : Bytes)
  | openBrace
  | count (digits : Bytes)
  | comma
  | closeBrace
  deriving DecidableEq, Repr

namespace Lexer

/-- What the lexer is inside of. -/
inductive Mode
  | plain
  | bracket
  | brace
  deriving DecidableEq, Repr

/-- Exactly `count` hexadecimal digits, as a value. -/
def hexDigits? : Nat → Bytes → Nat → Option (Nat × Bytes)
  | 0, rest, value => some (value, rest)
  | count + 1, b :: rest, value => do
    let digit ← Bytes.hexValue? b
    hexDigits? count rest (value * 16 + digit)
  | _ + 1, [], _ => none

def controlByte? (b : UInt8) : Option UInt8 :=
  [(48, 0), (98, 8), (102, 12), (110, 10), (114, 13), (116, 9), (118, 11)].lookup b

def quotedClass? (b : UInt8) : Option Token :=
  [((100 : UInt8), Token.quotedClass false .digit), (68, .quotedClass true .digit),
   (115, .quotedClass false .space), (83, .quotedClass true .space),
   (119, .quotedClass false .word), (87, .quotedClass true .word)].lookup b

/-- The token behind a backslash. -/
def escape? (mode : Mode) : Bytes → Option (Token × Bytes)
  | [] => none
  | b :: rest =>
    if b = 98 && mode != .bracket then some (.boundary false, rest)
    else match controlByte? b, quotedClass? b with
      | some c, _ => some (.literal c, rest)
      | none, some token => some (token, rest)
      | none, none =>
        if b = 66 then some (.boundary true, rest)
        else if b = 99 then match rest with
          | [] => none
          | c :: rest => some (.literal c, rest)
        else if b = 120 || b = 117 then do
          let (value, rest) ← hexDigits? (if b = 120 then 2 else 4) rest 0
          some (.literal value.toUInt8, rest)
        else if Bytes.isDigit b then
          some (.reference (b :: rest.takeWhile Bytes.isDigit), rest.dropWhile Bytes.isDigit)
        else some (.literal b, rest)

/-- The text up to `mark`, which a closing bracket has to follow. -/
def named? (mark : UInt8) : Bytes → Option (Bytes × Bytes)
  | [] => none
  | b :: rest =>
    if b = mark then match rest with
      | 93 :: rest => some ([], rest)
      | _ => none
    else (named? mark rest).map fun (name, rest) => (b :: name, rest)

/-- What opens behind a parenthesis. -/
def openParenthesis? : Bytes → Option (Token × Bytes)
  | 63 :: 58 :: rest => some (.openPlain, rest)
  | 63 :: 61 :: rest => some (.openLook false, rest)
  | 63 :: 33 :: rest => some (.openLook true, rest)
  | 63 :: _ => none
  | rest => some (.openGroup, rest)

def plain? (b : UInt8) (rest : Bytes) : Option (Token × Mode × Bytes) :=
  let stay (read : Option (Token × Bytes)) := read.map fun (token, rest) => (token, Mode.plain, rest)
  match b with
  | 92 => stay (escape? .plain rest)
  | 40 => stay (openParenthesis? rest)
  | 41 => some (.close, .plain, rest)
  | 91 => match rest with
    | 94 :: rest => some (.openBracket true, .bracket, rest)
    | rest => some (.openBracket false, .bracket, rest)
  | 123 => some (.openBrace, .brace, rest)
  | 94 => some (.lineStart, .plain, rest)
  | 36 => some (.lineEnd, .plain, rest)
  | 46 => some (.anyByte, .plain, rest)
  | 42 => some (.repeatAny, .plain, rest)
  | 43 => some (.repeatSome, .plain, rest)
  | 63 => some (.optional, .plain, rest)
  | 124 => some (.alternative, .plain, rest)
  | b => some (.literal b, .plain, rest)

def bracket? (b : UInt8) (rest : Bytes) : Option (Token × Mode × Bytes) :=
  let stay (read : Option (Token × Bytes)) :=
    read.map fun (token, rest) => (token, Mode.bracket, rest)
  match b with
  | 45 => some (.bracketDash, .bracket, rest)
  | 93 => some (.closeBracket, .plain, rest)
  | 92 => stay (escape? .bracket rest)
  | 91 => match rest with
    | [] => none
    | 46 :: rest => stay ((named? 46 rest).map fun (name, rest) => (.characterName name, rest))
    | 58 :: rest => stay ((named? 58 rest).map fun (name, rest) => (.className name, rest))
    | 61 :: rest => stay ((named? 61 rest).map fun (name, rest) => (.equivalenceName name, rest))
    | rest => some (.literal 91, .bracket, rest)
  | b => some (.literal b, .bracket, rest)

def brace? (b : UInt8) (rest : Bytes) : Option (Token × Mode × Bytes) :=
  if Bytes.isDigit b then
    some (.count (b :: rest.takeWhile Bytes.isDigit), .brace, rest.dropWhile Bytes.isDigit)
  else if b = 44 then some (.comma, .brace, rest)
  else if b = 125 then some (.closeBrace, .plain, rest)
  else none

def next? (mode : Mode) (b : UInt8) (rest : Bytes) : Option (Token × Mode × Bytes) :=
  match mode with
  | .plain => plain? b rest
  | .bracket => bracket? b rest
  | .brace => brace? b rest

/-- Reads tokens until the text ends; every token takes at least one byte. -/
def tokensWithin : Nat → Mode → Bytes → Option (List Token)
  | _, _, [] => some []
  | 0, _, _ :: _ => none
  | steps + 1, mode, b :: rest => do
    let (token, mode, rest) ← next? mode b rest
    let tokens ← tokensWithin steps mode rest
    some (token :: tokens)

/-- The tokens of a pattern. -/
def tokens? (text : Bytes) : Option (List Token) := tokensWithin text.length .plain text

end Lexer

end Chronicle.Pattern
