import Chronicle.Table

/-!
JSON documents.

The members of an object are kept in ascending key order, one for each key, so a document has one
compact text. Whole numbers are exact; other numbers keep their decimal digits.
-/

namespace Chronicle

inductive Json
  | null
  | bool (value : Bool)
  | number (value : Int)
  /-- a zero with a minus sign, which is whole but not natural -/
  | minusZero
  /-- `digits` times ten to the power of `exponent`, with a sign -/
  | decimal (negative : Bool) (digits : Nat) (exponent : Int)
  | string (text : Bytes)
  | array (items : List Json)
  | object (members : List (Bytes × Json))
  deriving Repr

namespace Json

instance : Inhabited Json := ⟨null⟩

def emptyObject : Json := object []

/-- An object with these members, later ones winning. -/
def ofMembers (members : List (Bytes × Json)) : Json := object (Table.ofList members).entries

def text (value : String) : Json := string (utf8 value)

def nat (n : Nat) : Json := number n

/-- The member of a key. -/
def find? (json : Json) (key : Bytes) : Option Json :=
  match json with
  | object members => Table.findEntry key members
  | _ => none

def isObject : Json → Bool
  | object _ => true
  | _ => false

def string? : Json → Option Bytes
  | string text => some text
  | _ => none

/-- What is visited when one goes through a value: the items of an array, the values of an object, nothing
where there is null, and any other value itself. -/
def visited : Json → List Json
  | array items => items
  | object members => members.map (·.2)
  | null => []
  | value => [value]

/-- A whole number that is not negative and fits into 64 bits. -/
def natural? : Json → Option Nat
  | number (.ofNat n) => if n < UInt64.size then some n else none
  | _ => none

/-- A number without its fraction. -/
def whole? : Json → Option Int
  | number value => some value
  | minusZero => some 0
  | decimal negative digits exponent =>
    let size : Nat :=
      if 0 ≤ exponent then digits * Nat.pow 10 exponent.toNat
      else if exponent < -400 then 0
      else digits / Nat.pow 10 exponent.natAbs
    some (if negative then -size else size)
  | _ => none

/-- A number of 32 bits, taken modulo their range; a truth value counts as one or zero. -/
def word32? : Json → Option UInt32
  | bool value => some (if value then 1 else 0)
  | value => value.whole?.map fun n => n.toInt64.toUInt64.toUInt32

/-- A number of 64 bits, taken modulo their range. -/
def word64? (value : Json) : Option UInt64 := value.whole?.map fun n => n.toInt64.toUInt64

/-- What kind of value this is, as messages name it. -/
def kind : Json → Bytes
  | null => utf8 "null"
  | bool _ => utf8 "boolean"
  | number _ => utf8 "number"
  | minusZero => utf8 "number"
  | decimal _ _ _ => utf8 "number"
  | string _ => utf8 "string"
  | array _ => utf8 "array"
  | object _ => utf8 "object"

end Json

end Chronicle
