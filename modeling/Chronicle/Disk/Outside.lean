import Chronicle.Disk.Operations

/-!
What others do to a disk while a program looks away, and what they see there: files appear, grow and
vanish, and all that is below a directory can be listed.
-/

namespace Chronicle.Disk

/-- Puts a file in place with this content, making the directories above it. -/
def put (disk : Disk) (here : Standing) (path : Path) (data : Bytes) : Disk :=
  let disk := if path.parent.isEmpty then disk else (disk.makeDirectories here path.parent).2
  (disk.overwrite here {} path data).2

/-- Adds data to the end of a file. -/
def extend (disk : Disk) (here : Standing) (path : Path) (data : Bytes) : Disk :=
  (disk.append here {} path data).2

/-- Puts a link in place of a free name. -/
def link (disk : Disk) (here : Standing) (target : Bytes) (path : Path) : Disk :=
  match disk.resolve here false path with
  | .ok (.absent key false) => disk.set key (.link target)
  | _ => disk

/-- Removes an entry with all that is below it, and says how many entries that were. -/
def removeAll (disk : Disk) (here : Standing) (path : Path) : Nat × Disk :=
  match disk.resolve here false path with
  | .ok (.present (.inside key) _) =>
    let gone := fun (entry : Key × Entry) => key.isPrefixOf entry.1
    ((disk.entries.filter gone).length, ⟨disk.entries.filter fun entry => !gone entry⟩)
  | _ => (0, disk)

/-- Makes a directory, goes there and removes it; the disk and where one stands then. -/
def vanish (disk : Disk) (here : Standing) (path : Path) : Disk × Standing :=
  let disk := (disk.makeDirectories here path).2
  match disk.resolve here true path with
  | .ok (.present (.inside key) .directory) => (disk.erase key, .detached key.dropLast)
  | _ => (disk, here)

/-- The content of a file, if there is one. -/
def content? (disk : Disk) (here : Standing) (path : Path) : Option Bytes :=
  match disk.read here {} path with
  | .content content => some content
  | _ => none

/-- The name of an entry with a mark for what it is. -/
def markedName (base : Key) (entry : Key × Entry) : Bytes :=
  let name := Bytes.joinedBy [Bytes.slash] (entry.1.drop base.length)
  match entry.2 with
  | .directory => name ++ utf8 "/"
  | .link _ => name ++ utf8 "@"
  | _ => name

/-- The names of all entries below a directory, sorted. -/
def listing (disk : Disk) (here : Standing) (path : Path) : List Bytes :=
  match disk.resolve here true path with
  | .ok (.present (.inside key) .directory) =>
    sortBy Bytes.precedes ((disk.below key).map (markedName key))
  | _ => []

end Chronicle.Disk
