import Chronicle.Manifest.Document
import Chronicle.Digest.Label

/-!
Verifying a manifest against chunks.

The hash of the manifest has to be its own, the entries have to cover the bundle without gap or overlap
in the order in which they are listed, and each has to have a chunk of its size and hash. Offsets and
sizes are added modulo 2 ^ 64.
-/

namespace Chronicle.Manifest

/-- What is wrong with a manifest and its chunks. -/
inductive Defect
  | hashMismatch (expected computed : Bytes)
  | tooLarge (index : UInt32) (limit : UInt64)
  | misplaced (index : UInt32) (offset expected : UInt64)
  | missing (index : UInt32)
  | sizeMismatch (index : UInt32) (expected : UInt64) (found : Nat)
  | chunkMismatch (index : UInt32) (expected computed : Bytes)
  | uncovered (covered size : UInt64)
  | noRootHash
  deriving DecidableEq, Repr

/-- What is unusual, but no reason for a refusal. -/
inductive Oddity
  | extraChunk (index : UInt32)
  | noChunks
  deriving DecidableEq, Repr

def indexText (index : UInt32) : Bytes := Bytes.decimal index.toNat
def wordText (n : UInt64) : Bytes := Bytes.decimal n.toNat

def Defect.message : Defect → Bytes
  | hashMismatch expected computed =>
    utf8 "Manifest hash mismatch: expected " ++ expected ++ utf8 ", computed " ++ computed
  | tooLarge index limit =>
    utf8 "Chunk " ++ indexText index ++ utf8 " exceeds chunk size " ++ wordText limit
  | misplaced index offset expected =>
    utf8 "Chunk " ++ indexText index ++ utf8 " starts at " ++ wordText offset ++ utf8 ", expected "
      ++ wordText expected
  | missing index => utf8 "Missing chunk at index " ++ indexText index
  | sizeMismatch index expected found =>
    utf8 "Chunk " ++ indexText index ++ utf8 " size mismatch: expected " ++ wordText expected ++
      utf8 ", got " ++ Bytes.decimal found
  | chunkMismatch index expected computed =>
    utf8 "Chunk " ++ indexText index ++ utf8 " hash mismatch: expected " ++ expected ++
      utf8 ", computed " ++ computed
  | uncovered covered size =>
    utf8 "Chunks cover " ++ wordText covered ++ utf8 " bytes, bundle has " ++ wordText size
  | noRootHash => utf8 "Manifest is missing rootHash"

def Oddity.message : Oddity → Bytes
  | extraChunk index =>
    utf8 "Extra chunk at index " ++ indexText index ++ utf8 " not referenced in manifest"
  | noChunks => utf8 "Manifest has no chunks"

structure Verification where
  defects : List Defect
  oddities : List Oddity
  deriving DecidableEq, Repr

def Verification.valid (verification : Verification) : Bool := verification.defects.isEmpty

/-! ### The checks -/

def hashDefects (manifest : Manifest) : List Defect :=
  let computed := manifest.computeHash
  if Digest.agree computed manifest.manifestHash then []
  else [.hashMismatch manifest.manifestHash computed]

/-- What is wrong with the place of an entry that should start where the one before it ended. -/
def placeDefects (limit covered : UInt64) (info : ChunkInfo) : List Defect :=
  (if limit < info.size then [.tooLarge info.index limit] else []) ++
    if info.offset ≠ covered then [.misplaced info.index info.offset covered] else []

/-- What is wrong with the chunk of an entry. -/
def chunkDefects (chunks : List Chunk) (info : ChunkInfo) : List Defect :=
  match chunkAt? chunks info.index with
  | none => [.missing info.index]
  | some chunk =>
    let content := chunk.content
    if content.length ≠ info.size.toNat then
      [.sizeMismatch info.index info.size content.length]
    else
      let computed := Sha256.hex content
      if Digest.agree computed info.hash then []
      else [.chunkMismatch info.index info.hash computed]

/-- Goes through the entries with the end of the one before, and gives the last end as well. -/
def entryDefects (limit : UInt64) (chunks : List Chunk) :
    UInt64 → List ChunkInfo → List Defect × UInt64
  | covered, [] => ([], covered)
  | covered, info :: rest =>
    let (defects, covered') := entryDefects limit chunks (info.offset + info.size) rest
    (placeDefects limit covered info ++ chunkDefects chunks info ++ defects, covered')

/-- Chunks that no entry mentions, in the order in which they were supplied. -/
def extraChunks (entries : List ChunkInfo) (chunks : List Chunk) : List Oddity :=
  (chunks.filter fun chunk => !entries.any fun info => info.index == chunk.info.index).map
    fun chunk => .extraChunk chunk.info.index

/-- All that is wrong or unusual. -/
def verify (manifest : Manifest) (chunks : List Chunk) : Verification :=
  let (defects, covered) := entryDefects manifest.chunkSize chunks 0 manifest.chunks
  { defects :=
      hashDefects manifest ++ defects ++
        (if covered ≠ manifest.bundleSize then [.uncovered covered manifest.bundleSize] else []) ++
        if manifest.rootHash.isEmpty then [.noRootHash] else []
    oddities :=
      extraChunks manifest.chunks chunks ++ if manifest.chunks.isEmpty then [.noChunks] else [] }

end Chronicle.Manifest
