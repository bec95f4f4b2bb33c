/-!
Byte strings and the few ways this library writes values as bytes.

A byte string is a list of bytes. Texts that the library prints itself are written as string
literals and taken over by `utf8`; numbers are written in decimal, digests in lowercase
hexadecimal. A comparison of byte strings is lexicographic with bytes taken as unsigned.
-/

namespace Chronicle

abbrev Bytes := List UInt8

/-- The UTF-8 bytes of a text. -/
def utf8 (text : String) : Bytes := text.toByteArray.data.toList

namespace Bytes

def newline : UInt8 := 10
def slash : UInt8 := 47
def backslash : UInt8 := 92
def dot : UInt8 := 46
def dash : UInt8 := 45

def isDigit (b : UInt8) : Bool := 48 ≤ b && b ≤ 57

/-! ### Numbers -/

/-- The digits of a number without leading zeros, zero being written as one digit. -/
def decimal (n : Nat) : Bytes := (Nat.toDigits 10 n).map fun c => c.toNat.toUInt8

/-- A negative number carries a leading minus sign. -/
def signedDecimal : Int → Bytes
  | .ofNat n => decimal n
  | .negSucc n => dash :: decimal (n + 1)

/-- Zeros are put in front of the text until it has `width` bytes. -/
def zeroPadded (width : Nat) (text : Bytes) : Bytes :=
  List.replicate (width - text.length) 48 ++ text

/-! ### Hexadecimal -/

/-- The lowercase digit of a value below sixteen. -/
def hexDigit (n : Nat) : UInt8 := if n < 10 then (48 + n).toUInt8 else (87 + n).toUInt8

/-- The value of a hexadecimal digit of either case. -/
def hexValue? (b : UInt8) : Option Nat :=
  if 48 ≤ b && b ≤ 57 then some (b.toNat - 48)
  else if 97 ≤ b && b ≤ 102 then some (b.toNat - 87)
  else if 65 ≤ b && b ≤ 70 then some (b.toNat - 55)
  else none

/-- Each byte is written as two digits, the high half first. -/
def hex (bytes : Bytes) : Bytes :=
  bytes.flatMap fun b => [hexDigit (b.toNat / 16), hexDigit (b.toNat % 16)]

/-- Reads pairs of digits; an odd digit or another character is refused. -/
def ofHex? : Bytes → Option Bytes
  | [] => some []
  | high :: low :: rest => do
    let high ← hexValue? high
    let low ← hexValue? low
    return (high * 16 + low).toUInt8 :: (← ofHex? rest)
  | [_] => none

/-! ### Parts -/

/-- The index of the first place where `needle` occurs. -/
def find? (needle : Bytes) : Bytes → Option Nat
  | [] => if needle.isEmpty then some 0 else none
  | b :: rest =>
    if needle.isPrefixOf (b :: rest) then some 0 else (find? needle rest).map (· + 1)

/-- Whether `needle` occurs in `text` in one piece. -/
def contains (text needle : Bytes) : Bool := (find? needle text).isSome

def startsWith (text start : Bytes) : Bool := start.isPrefixOf text
def endsWith (text ending : Bytes) : Bool := ending.isSuffixOf text

/-- The parts of a text between occurrences of a byte, empty ones included. -/
def splitOn (separator : UInt8) : Bytes → List Bytes
  | [] => [[]]
  | b :: rest =>
    if b = separator then [] :: splitOn separator rest
    else match splitOn separator rest with
      | [] => [[b]]
      | part :: parts => (b :: part) :: parts

/-- Every element is preceded by the separator. -/
def joinedAfter (separator : Bytes) (parts : List Bytes) : Bytes :=
  parts.flatMap fun part => separator ++ part

/-- The separator stands between neighbours only. -/
def joinedBy (separator : Bytes) : List Bytes → Bytes
  | [] => []
  | part :: parts => part ++ joinedAfter separator parts

/-- Lexicographic order of bytes taken as unsigned numbers, a beginning coming first. -/
def precedes (a b : Bytes) : Bool := decide (a < b)

theorem splitOn_ne_nil (separator : UInt8) (text : Bytes) : splitOn separator text ≠ [] := by
  induction text with
  | nil => simp [splitOn]
  | cons b rest ih =>
    simp only [splitOn]
    split
    · simp
    · split <;> simp

theorem hexValue?_hexDigit : ∀ n < 16, hexValue? (hexDigit n) = some n := by decide

end Bytes

end Chronicle
