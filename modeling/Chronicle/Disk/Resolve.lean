import Chronicle.Disk.Entry
import Chronicle.Disk.Errno

/-!
From the text of a path to a place on a disk.

Names are looked up one by one from the root or from the working directory. Everything but the last
name has to be a directory, links on the way are followed, at most forty of them, and a slash at the
end asks for a directory. A path is cut at its first null byte.
-/

namespace Chronicle.Disk

/-- A directory to start from: one on the disk, or one that has been removed from its parent. -/
inductive Standing
  | inside (key : Key)
  | detached (parent : Key)
  deriving DecidableEq, Repr

/-- What a path leads to. -/
inductive Place
  | present (place : Standing) (entry : Entry)
  /-- a free name in a directory that exists; `trailing` if a slash follows it -/
  | absent (key : Key) (trailing : Bool)
  deriving DecidableEq, Repr

def longestName : Nat := 255
def longestPath : Nat := 4095
def mostLinks : Nat := 40

/-- The entry at a standing; a removed directory is still a directory. -/
def standingEntry (disk : Disk) : Standing → Option Entry
  | .inside key => disk.find? key
  | .detached _ => some .directory

/-- One level up; the root is above itself. -/
def Standing.up : Standing → Standing
  | .inside key => .inside key.dropLast
  | .detached parent => .inside parent

/-- Looks up names in turn; `onLink` goes on from a link with the directory that holds it, its target
and the names behind it. -/
def walkNames (disk : Disk) (follow : Bool)
    (onLink : Key → Bytes → List Bytes → Except Errno Place) :
    Standing → List Bytes → Except Errno Place
  | here, [] =>
    match disk.standingEntry here with
    | some entry => .ok (.present here entry)
    | none => .error .noEntry
  | here, name :: rest =>
    if disk.standingEntry here ≠ some .directory then .error .notDirectory
    else if name.isEmpty || name == [Bytes.dot] then walkNames disk follow onLink here rest
    else if name == [Bytes.dot, Bytes.dot] then walkNames disk follow onLink here.up rest
    else if longestName < name.length then .error .nameTooLong
    else match here with
      | .detached _ => .error .noEntry
      | .inside key =>
        match disk.find? (key ++ [name]) with
        | none =>
          if rest.all (·.isEmpty) then .ok (.absent (key ++ [name]) (!rest.isEmpty))
          else .error .noEntry
        | some (.link target) =>
          if rest.isEmpty && !follow then .ok (.present (.inside (key ++ [name])) (.link target))
          else onLink key target rest
        | some _ => walkNames disk follow onLink (.inside (key ++ [name])) rest

/-- Where the names of a path start. -/
def startOf (here : Standing) (text : Bytes) : Standing :=
  if text.head? == some Bytes.slash then .inside [] else here

/-- Looks up names with a number of links still allowed. -/
def resolveNames (disk : Disk) (follow : Bool) : Nat → Standing → List Bytes → Except Errno Place
  | 0 => walkNames disk follow fun _ _ _ => .error .tooManyLinks
  | links + 1 => walkNames disk follow fun key target rest =>
      resolveNames disk follow links (startOf (.inside key) target)
        (Bytes.splitOn Bytes.slash target ++ rest)

/-- The path as the operating system receives it. -/
def systemText (path : Path) : Bytes := path.text.takeWhile (· != 0)

/-- What a path leads to from a working directory; `follow` says whether a link that is the last name
is followed. -/
def resolve (disk : Disk) (here : Standing) (follow : Bool) (path : Path) : Except Errno Place :=
  let text := systemText path
  if text.isEmpty then .error .noEntry
  else if longestPath < text.length then .error .nameTooLong
  else resolveNames disk follow mostLinks (startOf here text) (Bytes.splitOn Bytes.slash text)

end Chronicle.Disk
