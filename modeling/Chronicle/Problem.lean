import Chronicle.Bytes

/-!
How a failure is reported to the operator.

Each module states its own causes; a cause is turned into a problem, a record that names a category
and a code for programs to act on, a message and, where one helps, a hint. What happens outside the
library's own checks, such as reading a directory as if it were a file, is a crash: it has a text
and nothing else, and unwinds until something catches it.
-/

namespace Chronicle

/-- Where a problem comes from. -/
inductive Category
  /-- a value given by the operator -/
  | input
  /-- the file system -/
  | io
  /-- a document that cannot be read -/
  | parse
  /-- an operation that a trace does not allow -/
  | trace
  /-- hashes or sizes that disagree -/
  | integrity
  /-- a fault in the program itself -/
  | internal
  | unknown
  deriving DecidableEq, Repr

namespace Category

def name : Category → Bytes
  | input => utf8 "input"
  | io => utf8 "io"
  | parse => utf8 "parse"
  | trace => utf8 "trace"
  | integrity => utf8 "integrity"
  | internal => utf8 "internal"
  | unknown => utf8 "unknown"

def ofRank : Int → Category
  | 0 => input
  | 1 => io
  | 2 => parse
  | 3 => trace
  | 4 => integrity
  | 5 => internal
  | _ => unknown

end Category

structure Problem where
  category : Category
  message : Bytes
  code : Bytes := utf8 "unknown_error"
  hint : Bytes := []
  deriving DecidableEq, Repr

/-- How a computation ends when it gives no value. -/
inductive Failure
  | reported (problem : Problem)
  | crashed (text : Bytes)
  deriving DecidableEq, Repr

/-- The name at a rank in a list of names in rank order, or "unknown" where there is none. -/
def nameAtRank (names : List Bytes) : Int → Bytes
  | .ofNat n => names.getD n (utf8 "unknown")
  | .negSucc _ => utf8 "unknown"

end Chronicle
