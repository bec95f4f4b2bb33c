import Chronicle.Json.Value
import Chronicle.Text.Utf8

/-!
The texts of a JSON document: compact, and indented by two spaces a level.

Strings escape quotes, backslashes and control characters and leave other characters as they are; a
broken piece of UTF-8 is replaced by a mark. A compact text therefore has no line break in it.
-/

namespace Chronicle.Json

/-! ### Strings -/

/-- The text of an ASCII character in a string. -/
def escapedByte (b : UInt8) : Bytes :=
  if b = 34 then utf8 "\\\""
  else if b = 92 then utf8 "\\\\"
  else if b = 8 then utf8 "\\b"
  else if b = 12 then utf8 "\\f"
  else if b = 10 then utf8 "\\n"
  else if b = 13 then utf8 "\\r"
  else if b = 9 then utf8 "\\t"
  else if b < 32 then utf8 "\\u00" ++ Bytes.hex [b]
  else [b]

/-- Writes characters one by one; the next `skip` bytes have been written already. -/
def escapedFrom : Nat → Bytes → Bytes
  | _, [] => []
  | skip + 1, _ :: rest => escapedFrom skip rest
  | 0, b :: rest =>
    if b < 0x80 then escapedByte b ++ escapedFrom 0 rest
    else match Utf8.piece b rest with
      | .whole behind => b :: rest.take behind ++ escapedFrom behind rest
      | .broken behind => Utf8.replacement ++ escapedFrom behind rest

def quoted (text : Bytes) : Bytes := utf8 "\"" ++ escapedFrom 0 text ++ utf8 "\""

/-! ### Numbers -/

/-- An exponent with its sign and at least two digits. -/
def exponentText (exponent : Int) : Bytes :=
  utf8 (if exponent < 0 then "e-" else "e+") ++
    Bytes.zeroPadded 2 (Bytes.decimal exponent.natAbs)

/-- Digits and a power of ten, positional where the point is near the digits. -/
def decimalDigits (digits : Bytes) (exponent : Int) : Bytes :=
  let point := digits.length + exponent
  if 0 ≤ exponent && point ≤ 15 then
    digits ++ List.replicate exponent.toNat 48 ++ utf8 ".0"
  else if 0 < point && point ≤ 15 then
    digits.take point.toNat ++ utf8 "." ++ digits.drop point.toNat
  else if -4 < point && point ≤ 0 then
    utf8 "0." ++ List.replicate (-point).toNat 48 ++ digits
  else
    let tail := digits.drop 1
    digits.take 1 ++ (if tail.isEmpty then [] else utf8 "." ++ tail) ++ exponentText (point - 1)

/-- The digits without zeros at the end, and the power of ten that belongs to them. -/
def trimmedDigits (digits : Nat) (exponent : Int) : Bytes × Int :=
  let all := Bytes.decimal digits
  let zeros := (all.reverse.takeWhile (· == 48)).length
  (all.take (all.length - zeros), exponent + zeros)

def decimalText (negative : Bool) (digits : Nat) (exponent : Int) : Bytes :=
  utf8 (if negative then "-" else "") ++
    if digits = 0 then utf8 "0.0"
    else
      let (digits, exponent) := trimmedDigits digits exponent
      decimalDigits digits exponent

/-! ### Documents -/

mutual

/-- The text without blanks. -/
def compact : Json → Bytes
  | null => utf8 "null"
  | bool true => utf8 "true"
  | bool false => utf8 "false"
  | number value => Bytes.signedDecimal value
  | minusZero => utf8 "0"
  | decimal negative digits exponent => decimalText negative digits exponent
  | string text => quoted text
  | array items => utf8 "[" ++ compactItems items ++ utf8 "]"
  | object members => utf8 "\x7b" ++ compactMembers members ++ utf8 "\x7d"

def compactItems : List Json → Bytes
  | [] => []
  | [item] => compact item
  | item :: rest => compact item ++ utf8 "," ++ compactItems rest

def compactMembers : List (Bytes × Json) → Bytes
  | [] => []
  | [(key, value)] => quoted key ++ utf8 ":" ++ compact value
  | (key, value) :: rest =>
    quoted key ++ utf8 ":" ++ compact value ++ utf8 "," ++ compactMembers rest

end

/-- A line break and the blanks in front of a line. -/
def lineStart (depth : Nat) : Bytes := Bytes.newline :: List.replicate (2 * depth) 32

mutual

/-- The text with one line for each item and member, two blanks a level. -/
def indentedAt (depth : Nat) : Json → Bytes
  | array [] => utf8 "[]"
  | array items =>
    utf8 "[" ++ indentedItems (depth + 1) items ++ lineStart depth ++ utf8 "]"
  | object [] => utf8 "\x7b\x7d"
  | object members =>
    utf8 "\x7b" ++ indentedMembers (depth + 1) members ++ lineStart depth ++ utf8 "\x7d"
  | null => utf8 "null"
  | bool true => utf8 "true"
  | bool false => utf8 "false"
  | number value => Bytes.signedDecimal value
  | minusZero => utf8 "0"
  | decimal negative digits exponent => decimalText negative digits exponent
  | string text => quoted text

def indentedItems (depth : Nat) : List Json → Bytes
  | [] => []
  | [item] => lineStart depth ++ indentedAt depth item
  | item :: rest =>
    lineStart depth ++ indentedAt depth item ++ utf8 "," ++ indentedItems depth rest

def indentedMembers (depth : Nat) : List (Bytes × Json) → Bytes
  | [] => []
  | [(key, value)] => lineStart depth ++ quoted key ++ utf8 ": " ++ indentedAt depth value
  | (key, value) :: rest =>
    lineStart depth ++ quoted key ++ utf8 ": " ++ indentedAt depth value ++ utf8 "," ++
      indentedMembers depth rest

end

def indented (json : Json) : Bytes := indentedAt 0 json

/-! ### Whole texts -/

mutual

/-- Whether the strings in a document, its keys included, consist of whole characters, so that nothing is
replaced in its text. -/
def isWhole : Json → Bool
  | string text => Utf8.isValid text
  | array items => areWhole items
  | object members => haveWhole members
  | _ => true

def areWhole : List Json → Bool
  | [] => true
  | item :: rest => isWhole item && areWhole rest

def haveWhole : List (Bytes × Json) → Bool
  | [] => true
  | (key, value) :: rest => Utf8.isValid key && isWhole value && haveWhole rest

end

end Chronicle.Json
