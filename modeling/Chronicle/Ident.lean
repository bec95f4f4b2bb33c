import Chronicle.Bytes

/-!
Identifiers made of random hexadecimal digits.

The digits are drawn elsewhere and arrive as numbers below sixteen.
-/

namespace Chronicle.Ident

def digits (draws : List Nat) : Bytes := draws.map Bytes.hexDigit

/-- A short identifier: a word saying what it is for, a dash and the digits. -/
def short (word : Bytes) (draws : List Nat) : Bytes := word ++ utf8 "-" ++ digits draws

/-- The digit that marks the variant of a random identifier, one of 8, 9, a and b. -/
def variantDigit (draw : Nat) : Nat := 8 + draw % 4

/-- A random identifier in five groups of digits; the version digit is 4. -/
def unique (draws : List Nat) : Bytes :=
  let part (start count : Nat) := digits ((draws.drop start).take count)
  part 0 8 ++ utf8 "-" ++ part 8 4 ++ utf8 "-4" ++ part 13 3 ++ utf8 "-" ++
    digits [variantDigit (draws.getD 16 0)] ++ part 17 3 ++ utf8 "-" ++ part 20 12

end Chronicle.Ident
