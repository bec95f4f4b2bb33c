import Chronicle.Sorted

/-!
Paths as texts: how they are taken apart, put together and brought into normal form.

A path is its text; nothing here looks at a disk. Names are separated by one or more slashes, and a
path that starts with a slash is absolute. A trailing slash counts as an empty last name.
-/

namespace Chronicle

structure Path where
  text : Bytes
  deriving DecidableEq, Repr

namespace Path

instance : Inhabited Path := ⟨⟨[]⟩⟩

def ofString (text : String) : Path := ⟨utf8 text⟩

def isEmpty (path : Path) : Bool := path.text.isEmpty

def isAbsolute (path : Path) : Bool := path.text.head? == some Bytes.slash

/-- The text without its last bytes that satisfy a test. -/
def trimEnd (test : UInt8 → Bool) (text : Bytes) : Bytes := (text.reverse.dropWhile test).reverse

/-- The text behind the last slash. -/
def fileName (path : Path) : Bytes :=
  (path.text.reverse.takeWhile (· != Bytes.slash)).reverse

/-- The path up to its last name, without the slashes between; the root is its own parent. -/
def parent (path : Path) : Path :=
  if path.text.all (· == Bytes.slash) then path
  else
    let front := trimEnd (· != Bytes.slash) path.text
    let trimmed := trimEnd (· == Bytes.slash) front
    if trimmed.isEmpty && !front.isEmpty then ⟨[Bytes.slash]⟩ else ⟨trimmed⟩

/-- Puts a name or path behind a path; an absolute one replaces it. -/
def join (path : Path) (name : Bytes) : Path :=
  if name.head? == some Bytes.slash || path.isEmpty then ⟨name⟩
  else if path.text.getLast? == some Bytes.slash then ⟨path.text ++ name⟩
  else ⟨path.text ++ Bytes.slash :: name⟩

/-- The end of the name from its last dot on; a dot in front starts no extension. -/
def extension (path : Path) : Bytes :=
  let name := path.fileName
  let tail := (name.reverse.takeWhile (· != Bytes.dot)).reverse
  if tail.length + 1 < name.length && name != [Bytes.dot, Bytes.dot] then Bytes.dot :: tail else []

/-! ### Names in order -/

/-- The names of a path, an empty one for a trailing slash, and a slash for the root in front. -/
def components (path : Path) : List Bytes :=
  let names := (Bytes.splitOn Bytes.slash path.text).filter (!·.isEmpty)
  let root := if path.isAbsolute then [[Bytes.slash]] else []
  let last := if !names.isEmpty && path.text.getLast? == some Bytes.slash then [[]] else []
  root ++ names ++ last

/-- Lexicographic order of lists of names. -/
def componentsPrecede : List Bytes → List Bytes → Bool
  | _, [] => false
  | [], _ :: _ => true
  | a :: as, b :: bs => Bytes.precedes a b || (a == b && componentsPrecede as bs)

/-- Relative paths first, then component by component, so a directory's entries stand together. -/
def precedes (a b : Path) : Bool :=
  if a.isAbsolute == b.isAbsolute then componentsPrecede a.components b.components
  else b.isAbsolute

/-- Ascending order of paths. -/
def sorted (paths : List Path) : List Path := sortBy precedes paths

/-! ### Normal form -/

/-- What is kept while an absolute path is normalised, the names in reverse. -/
structure Normalizing where
  names : List Bytes := []
  trailing : Bool := false

/-- A dot and an empty name only leave a trailing slash; two dots take back a name if there is one. -/
def Normalizing.step (state : Normalizing) (name : Bytes) : Normalizing :=
  if name.isEmpty || name == [Bytes.dot] then { state with trailing := true }
  else if name == [Bytes.dot, Bytes.dot] then ⟨state.names.tail, true⟩
  else ⟨name :: state.names, false⟩

def Normalizing.finish (state : Normalizing) : Path :=
  if state.names.isEmpty then ⟨[Bytes.slash]⟩
  else ⟨Bytes.joinedAfter [Bytes.slash] state.names.reverse
    ++ if state.trailing then [Bytes.slash] else []⟩

/-- The normal form of an absolute path: no dots, no repeated slashes. The root stays as it is written,
with any number of slashes. -/
def normalized (path : Path) : Path :=
  if path.text.all (· == Bytes.slash) then path
  else ((Bytes.splitOn Bytes.slash path.text).foldl Normalizing.step {}).finish

end Path

end Chronicle
