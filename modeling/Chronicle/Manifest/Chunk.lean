import Chronicle.Bytes

/-!
Chunks: ranges of bytes that a manifest lists one by one.
-/

namespace Chronicle.Manifest

/-- The only compression there is. -/
def noCompression : Bytes := utf8 "none"

/-- What a manifest says about a chunk. -/
structure ChunkInfo where
  index : UInt32 := 0
  hash : Bytes := []
  offset : UInt64 := 0
  size : UInt64 := 0
  compression : Bytes := noCompression
  deriving DecidableEq, Repr

/-- A chunk with the text it is a range of, and where in that text it starts. -/
structure Chunk where
  info : ChunkInfo
  source : Bytes
  start : UInt64
  deriving DecidableEq, Repr

namespace Chunk

/-- A chunk of the text that its offset counts in. -/
def ofRange (info : ChunkInfo) (source : Bytes) : Chunk := ⟨info, source, info.offset⟩

/-- A chunk that has a text of its own. -/
def ofContent (info : ChunkInfo) (content : Bytes) : Chunk := ⟨info, content, 0⟩

/-- The bytes of the range that exist; there are none where it starts behind the text. -/
def content (chunk : Chunk) : Bytes :=
  (chunk.source.drop chunk.start.toNat).take chunk.info.size.toNat

end Chunk

/-- The last of the chunks with an index. -/
def chunkAt? (chunks : List Chunk) (index : UInt32) : Option Chunk :=
  chunks.reverse.find? fun chunk => chunk.info.index == index

end Chronicle.Manifest
