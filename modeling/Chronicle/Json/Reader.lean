import Chronicle.Json.Value
import Chronicle.Text.Utf8

/-!
Reading JSON documents.

A text is read if it is one value with blanks around it, its strings being whole UTF-8 characters. Of
members with one key the last one counts. Whole numbers beyond 64 bits are kept as decimals, and a number
too large for a double is refused. A null byte behind the value ends the text.
-/

namespace Chronicle.Json.Reader

def isBlank (b : UInt8) : Bool := b == 32 || b == 9 || b == 10 || b == 13

def skipBlanks (text : Bytes) : Bytes := text.dropWhile isBlank

/-- Takes a fixed text from the front. -/
def takeExact? : Bytes → Bytes → Option Bytes
  | [], rest => some rest
  | _ :: _, [] => none
  | a :: wanted, b :: rest => if a = b then takeExact? wanted rest else none

/-! ### Strings -/

def hexUnit? (a b c d : UInt8) : Option Nat := do
  let a ← Bytes.hexValue? a
  let b ← Bytes.hexValue? b
  let c ← Bytes.hexValue? c
  let d ← Bytes.hexValue? d
  return a * 4096 + b * 256 + c * 16 + d

def simpleEscape? (b : UInt8) : Option UInt8 :=
  [(34, 34), (92, 92), (47, 47), (98, 8), (102, 12), (110, 10), (114, 13), (116, 9)].lookup b

def isHighHalf (unit : Nat) : Bool := 0xD800 ≤ unit && unit < 0xDC00
def isLowHalf (unit : Nat) : Bool := 0xDC00 ≤ unit && unit < 0xE000

/-- Puts bytes in front of the rest of a string. -/
def before (bytes : Bytes) (read : Option (Bytes × Bytes)) : Option (Bytes × Bytes) :=
  read.map fun (text, rest) => (bytes ++ text, rest)

/-- A string behind its opening quote, and what follows its closing quote. -/
def stringBody? : Bytes → Option (Bytes × Bytes)
  | [] => none
  | 34 :: rest => some ([], rest)
  | 92 :: 117 :: a :: b :: c :: d :: 92 :: 117 :: e :: f :: g :: h :: rest => do
    let unit ← hexUnit? a b c d
    if isHighHalf unit then
      let low ← hexUnit? e f g h
      if isLowHalf low then
        before (Utf8.encode (0x10000 + (unit - 0xD800) * 1024 + (low - 0xDC00))) (stringBody? rest)
      else none
    else if isLowHalf unit then none
    else before (Utf8.encode unit) (stringBody? (92 :: 117 :: e :: f :: g :: h :: rest))
  | 92 :: 117 :: a :: b :: c :: d :: rest => do
    let unit ← hexUnit? a b c d
    if isHighHalf unit || isLowHalf unit then none
    else before (Utf8.encode unit) (stringBody? rest)
  | 92 :: b :: rest => do
    let c ← simpleEscape? b
    before [c] (stringBody? rest)
  | b :: rest => if b < 32 || b == 92 then none else before [b] (stringBody? rest)

def string? (text : Bytes) : Option (Bytes × Bytes) := do
  let (value, rest) ← stringBody? text
  if Utf8.isValid value then some (value, rest) else none

/-! ### Numbers -/

def digitsValue (digits : Bytes) : Nat := digits.foldl (fun n b => n * 10 + (b.toNat - 48)) 0

/-- One digit or more. -/
def digits? (text : Bytes) : Option (Bytes × Bytes) :=
  let digits := text.takeWhile Bytes.isDigit
  if digits.isEmpty then none else some (digits, text.dropWhile Bytes.isDigit)

/-- The digits in front of the point; a zero stands alone. -/
def wholeDigits? : Bytes → Option (Bytes × Bytes)
  | 48 :: rest => some ([48], rest)
  | text => digits? text

def fraction? : Bytes → Option (Bytes × Bytes)
  | 46 :: rest => digits? rest
  | text => some ([], text)

/-- The exponent, if there is one. -/
def exponent? : Bytes → Option (Option Int × Bytes)
  | b :: rest =>
    if b = 101 || b = 69 then do
      let (negative, rest) := match rest with
        | 45 :: rest => (true, rest)
        | 43 :: rest => (false, rest)
        | rest => (false, rest)
      let (digits, rest) ← digits? rest
      let value : Int := digitsValue digits
      some (some (if negative then -value else value), rest)
    else some (none, b :: rest)
  | [] => some (none, [])

/-- How many digits stand in front of the point of the least number that no double is nearest to. -/
def largestMagnitude : Int := 309

/-- The least number that no double is nearest to: it is halfway from the largest one to a power of two. -/
def doublesEnd : Nat := Nat.pow 2 1024 - Nat.pow 2 970

/-- Whether a number times a power of ten is beyond all doubles. Only for one of the same magnitude as the
end of the doubles the digits decide. -/
def exceedsDoubles (value : Nat) (exponent : Int) : Bool :=
  let magnitude := (Bytes.decimal value).length + exponent
  if value = 0 || magnitude < largestMagnitude then false
  else if largestMagnitude < magnitude then true
  else if 0 ≤ exponent then doublesEnd ≤ value * Nat.pow 10 exponent.toNat
  else doublesEnd * Nat.pow 10 exponent.natAbs ≤ value

def decimalOf? (negative : Bool) (digits : Bytes) (exponent : Int) : Option Json :=
  let value := digitsValue digits
  if exceedsDoubles value exponent then none else some (.decimal negative value exponent)

def number? (text : Bytes) : Option (Json × Bytes) := do
  let (negative, text) := match text with
    | 45 :: rest => (true, rest)
    | rest => (false, rest)
  let (whole, rest) ← wholeDigits? text
  let (fraction, rest) ← fraction? rest
  let (exponent, rest) ← exponent? rest
  if fraction.isEmpty && exponent.isNone then
    let value := digitsValue whole
    if negative && value = 0 then some (.minusZero, rest)
    else if if negative then 2 * value ≤ UInt64.size else value < UInt64.size then
      some (.number (if negative then -value else value), rest)
    else return (← decimalOf? negative whole 0, rest)
  else return (← decimalOf? negative (whole ++ fraction) (exponent.getD 0 - fraction.length), rest)

/-! ### Values -/

mutual

/-- A value with blanks in front. -/
def value? : Nat → Bytes → Option (Json × Bytes)
  | 0, _ => none
  | steps + 1, text =>
    match skipBlanks text with
    | 34 :: rest => (string? rest).map fun (value, rest) => (.string value, rest)
    | 91 :: rest =>
      match skipBlanks rest with
      | 93 :: rest => some (.array [], rest)
      | _ => (items? steps rest).map fun (items, rest) => (.array items, rest)
    | 123 :: rest =>
      match skipBlanks rest with
      | 125 :: rest => some (.object [], rest)
      | _ => (members? steps rest).map fun (members, rest) => (ofMembers members, rest)
    | text =>
      match takeExact? (utf8 "true") text, takeExact? (utf8 "false") text,
          takeExact? (utf8 "null") text with
      | some rest, _, _ => some (.bool true, rest)
      | _, some rest, _ => some (.bool false, rest)
      | _, _, some rest => some (.null, rest)
      | none, none, none => number? text

/-- The items of an array that has some, up to its end. -/
def items? : Nat → Bytes → Option (List Json × Bytes)
  | 0, _ => none
  | steps + 1, text => do
    let (item, rest) ← value? steps text
    match skipBlanks rest with
    | 44 :: rest => (items? steps rest).map fun (items, rest) => (item :: items, rest)
    | 93 :: rest => some ([item], rest)
    | _ => none

/-- The members of an object that has some, up to its end. -/
def members? : Nat → Bytes → Option (List (Bytes × Json) × Bytes)
  | 0, _ => none
  | steps + 1, text => do
    let 34 :: rest := skipBlanks text | none
    let (key, rest) ← string? rest
    let 58 :: rest := skipBlanks rest | none
    let (value, rest) ← value? steps rest
    match skipBlanks rest with
    | 44 :: rest => (members? steps rest).map fun (members, rest) => ((key, value) :: members, rest)
    | 125 :: rest => some ([(key, value)], rest)
    | _ => none

end

/-- Whether a text ends behind its value: with blanks, or at a null byte. -/
def isEnd (rest : Bytes) : Bool := (skipBlanks rest).head?.all (· == 0)

end Chronicle.Json.Reader

namespace Chronicle.Json

/-- Reads a document; a byte order mark in front is left out. -/
def read? (text : Bytes) : Option Json := do
  let text := match text with
    | 0xEF :: 0xBB :: 0xBF :: rest => rest
    | text => text
  let (value, rest) ← Reader.value? (text.length + 1) text
  if Reader.isEnd rest then some value else none

end Chronicle.Json
