import Chronicle.Manifest.Document
import Chronicle.Digest.Label
import Chronicle.Sorted

/-!
Putting the content of a bundle together again.

Chunks are joined in the order of their indices, whatever the order of the entries; every chunk is
checked against its entry, and the whole against the hash of the bundle.
-/

namespace Chronicle.Manifest

/-- Why the content cannot be put together. -/
inductive JoinFault
  | missing (index : UInt32)
  | chunkMismatch (index : UInt32)
  | bundleMismatch (run : Bytes)
  deriving DecidableEq, Repr

namespace JoinFault

def message : JoinFault → Bytes
  | missing index => utf8 "Missing chunk at index " ++ Bytes.decimal index.toNat
  | chunkMismatch index =>
    utf8 "Chunk " ++ Bytes.decimal index.toNat ++ utf8 " does not match its manifest hash"
  | bundleMismatch run =>
    utf8 "Reassembled content does not match bundle hash for run " ++ run

def code : JoinFault → Bytes
  | missing _ => utf8 "chunk_missing"
  | chunkMismatch _ => utf8 "chunk_hash_mismatch"
  | bundleMismatch _ => utf8 "bundle_hash_mismatch"

def problem (fault : JoinFault) : Problem where
  category := .integrity
  message := fault.message
  code := fault.code

end JoinFault

/-- The content of the chunk of an entry. -/
def piece (chunks : List Chunk) (info : ChunkInfo) : Except JoinFault Bytes :=
  match chunkAt? chunks info.index with
  | none => .error (.missing info.index)
  | some chunk =>
    if Digest.agree (Sha256.hex chunk.content) info.hash then .ok chunk.content
    else .error (.chunkMismatch info.index)

/-- The contents of the chunks of entries, one behind the other. -/
def pieces (chunks : List Chunk) : List ChunkInfo → Except JoinFault Bytes
  | [] => .ok []
  | info :: rest => do
    let first ← piece chunks info
    return first ++ (← pieces chunks rest)

/-- Entries in the order of their indices. -/
def byIndex (entries : List ChunkInfo) : List ChunkInfo :=
  sortBy (fun a b => decide (a.index < b.index)) entries

/-- The content of the bundle. -/
def reassemble (manifest : Manifest) (chunks : List Chunk) : Except JoinFault Bytes := do
  let content ← pieces chunks (byIndex manifest.chunks)
  if Digest.agree (Sha256.hex content) manifest.bundleHash then return content
  else .error (.bundleMismatch manifest.runId)

end Chronicle.Manifest
