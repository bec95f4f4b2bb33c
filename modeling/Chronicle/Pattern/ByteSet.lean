import Chronicle.Bytes

/-!
Sets of bytes as they are written in patterns: single bytes, ranges, named classes.

Only ASCII bytes belong to named classes. The ends of a range are compared as signed bytes, so the
upper half of the byte values comes before the lower half.
-/

namespace Chronicle.Pattern

/-- The named classes. -/
inductive ByteClass
  | alnum
  | alpha
  | blank
  | cntrl
  | digit
  | graph
  | lower
  | print
  | punct
  | space
  | upper
  | xdigit
  /-- letters, digits and the underscore -/
  | word
  deriving DecidableEq, Repr

namespace ByteClass

def isLower (b : UInt8) : Bool := 97 ≤ b && b ≤ 122
def isUpper (b : UInt8) : Bool := 65 ≤ b && b ≤ 90
def isAlpha (b : UInt8) : Bool := isLower b || isUpper b
def isAlnum (b : UInt8) : Bool := isAlpha b || Bytes.isDigit b
def isGraph (b : UInt8) : Bool := 33 ≤ b && b ≤ 126

def has : ByteClass → UInt8 → Bool
  | alnum, b => isAlnum b
  | alpha, b => isAlpha b
  | blank, b => b == 32 || b == 9
  | cntrl, b => b < 32 || b == 127
  | digit, b => Bytes.isDigit b
  | graph, b => isGraph b
  | lower, b => isLower b
  | print, b => b == 32 || isGraph b
  | punct, b => isGraph b && !isAlnum b
  | space, b => b == 32 || (9 ≤ b && b ≤ 13)
  | upper, b => isUpper b
  | xdigit, b => Bytes.isDigit b || (97 ≤ b && b ≤ 102) || (65 ≤ b && b ≤ 70)
  | word, b => isAlnum b || b == 95

/-- Lower case of an ASCII letter; other bytes stay. -/
def toLower (b : UInt8) : UInt8 := if isUpper b then b + 32 else b

def names : List (Bytes × ByteClass) :=
  [(utf8 "d", digit), (utf8 "w", word), (utf8 "s", space), (utf8 "alnum", alnum),
   (utf8 "alpha", alpha), (utf8 "blank", blank), (utf8 "cntrl", cntrl), (utf8 "digit", digit),
   (utf8 "graph", graph), (utf8 "lower", lower), (utf8 "print", print), (utf8 "punct", punct),
   (utf8 "space", space), (utf8 "upper", upper), (utf8 "xdigit", xdigit)]

/-- The class of a name, letter case ignored. -/
def ofName? (name : Bytes) : Option ByteClass := names.lookup (name.map toLower)

end ByteClass

/-- The standard names of the ASCII characters, from the null character on. -/
def characterNames : List String :=
  ["NUL", "SOH", "STX", "ETX", "EOT", "ENQ", "ACK", "alert", "backspace", "tab", "newline",
   "vertical-tab", "form-feed", "carriage-return", "SO", "SI", "DLE", "DC1", "DC2", "DC3", "DC4",
   "NAK", "SYN", "ETB", "CAN", "EM", "SUB", "ESC", "IS4", "IS3", "IS2", "IS1", "space",
   "exclamation-mark", "quotation-mark", "number-sign", "dollar-sign", "percent-sign", "ampersand",
   "apostrophe", "left-parenthesis", "right-parenthesis", "asterisk", "plus-sign", "comma",
   "hyphen", "period", "slash", "zero", "one", "two", "three", "four", "five", "six", "seven",
   "eight", "nine", "colon", "semicolon", "less-than-sign", "equals-sign", "greater-than-sign",
   "question-mark", "commercial-at", "A", "B", "C", "D", "E", "F", "G", "H", "I", "J", "K", "L",
   "M", "N", "O", "P", "Q", "R", "S", "T", "U", "V", "W", "X", "Y", "Z", "left-square-bracket",
   "backslash", "right-square-bracket", "circumflex", "underscore", "grave-accent", "a", "b", "c",
   "d", "e", "f", "g", "h", "i", "j", "k", "l", "m", "n", "o", "p", "q", "r", "s", "t", "u", "v",
   "w", "x", "y", "z", "left-curly-bracket", "vertical-line", "right-curly-bracket", "tilde",
   "DEL"]

/-- The byte of a named character. -/
def namedByte? (name : Bytes) : Option UInt8 :=
  (characterNames.findIdx? fun known => utf8 known == name).map (·.toUInt8)

/-- One part of a bracketed set. -/
inductive SetItem
  | byte (b : UInt8)
  | range (low high : UInt8)
  | oneOf (cls : ByteClass)
  | noneOf (cls : ByteClass)
  /-- a letter in either case, or the byte itself -/
  | alike (b : UInt8)
  deriving DecidableEq, Repr

/-- The value of a byte taken as a signed number. -/
def signed (b : UInt8) : Int := if b < 128 then b.toNat else b.toNat - 256

def SetItem.has : SetItem → UInt8 → Bool
  | .byte b, c => c == b
  | .range low high, c => decide (signed low ≤ signed c) && decide (signed c ≤ signed high)
  | .oneOf cls, c => cls.has c
  | .noneOf cls, c => !cls.has c
  | .alike b, c => ByteClass.toLower c == ByteClass.toLower b

/-- A set given by its parts, or by what it leaves out. -/
structure ByteSet where
  items : List SetItem
  negated : Bool := false
  deriving DecidableEq, Repr

namespace ByteSet

def has (set : ByteSet) (b : UInt8) : Bool := (set.items.any fun item => item.has b) != set.negated

def single (b : UInt8) : ByteSet := ⟨[.byte b], false⟩

/-- Every byte that does not end a line. -/
def any : ByteSet := ⟨[.byte 10, .byte 13], true⟩

end ByteSet

end Chronicle.Pattern
