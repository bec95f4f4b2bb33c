import Chronicle.Manifest.Document

/-!
Building the manifest of a bundle.

The content of the bundle is cut into consecutive chunks of the chosen size, the last one being what is
left. The manifest lists them with their digests and carries its own hash.
-/

namespace Chronicle.Manifest

structure Options where
  chunkSize : UInt64 := defaultChunkSize
  compression : Bytes := noCompression
  deriving DecidableEq, Repr

/-- A manifest with the chunks it lists, in the same order. -/
structure Chunked where
  manifest : Manifest
  chunks : List Chunk
  deriving DecidableEq, Repr

/-- Why no manifest is built. -/
inductive BuildFault
  | zeroChunkSize
  | unknownCompression (name : Bytes)
  | notFinalized (run : Bytes)
  deriving DecidableEq, Repr

namespace BuildFault

def message : BuildFault → Bytes
  | zeroChunkSize => utf8 "Chunk size must be positive."
  | unknownCompression name => utf8 "Unsupported chunk compression: " ++ name
  | notFinalized run => utf8 "Cannot build a manifest for an unfinalized run: " ++ run

def problem (fault : BuildFault) : Problem :=
  match fault with
  | zeroChunkSize =>
    { category := .input, message := fault.message, code := utf8 "invalid_chunk_size" }
  | unknownCompression _ =>
    { category := .input
      message := fault.message
      code := utf8 "unsupported_compression"
      hint := utf8 "Chunks are sized for transport; use \"none\"." }
  | notFinalized _ =>
    { category := .trace, message := fault.message, code := utf8 "run_not_finalized" }

end BuildFault

/-! ### Cutting -/

/-- The infos of the chunks from an index and an offset on, for the content that is left. -/
def cutFrom (size : Nat) (compression : Bytes) (index : Nat) (offset : Nat) (left : Bytes) :
    List ChunkInfo :=
  if left = [] ∨ size = 0 then []
  else
    let piece := left.take size
    { index := UInt32.ofNat index
      hash := Sha256.hex piece
      offset := UInt64.ofNat offset
      size := UInt64.ofNat piece.length
      compression := compression } ::
      cutFrom size compression (index + 1) (offset + size) (left.drop size)
termination_by left.length
decreasing_by
  next h =>
    have := List.length_pos_iff.mpr (fun e => h (.inl e))
    rw [List.length_drop]
    omega

/-- The infos of the chunks of a content. -/
def cut (options : Options) (content : Bytes) : List ChunkInfo :=
  cutFrom options.chunkSize.toNat options.compression 0 0 content

/-! ### Building -/

/-- A manifest with the hash that belongs to it. -/
def sealed (manifest : Manifest) : Manifest := { manifest with manifestHash := manifest.computeHash }

/-- The manifest and the chunks of a bundle with this content. -/
def ofContent (options : Options) (bundle : Trace.Bundle) (content : Bytes) : Chunked :=
  let run := bundle.privateRun
  let infos := cut options content
  { manifest := sealed
      { version := bundle.version
        runId := run.id
        agentId := run.agentId
        rootHash := bundle.rootHash
        merkleRoot := bundle.merkleRoot
        totalEvents := UInt64.ofNat run.events.length
        totalSpans := UInt64.ofNat run.spans.length
        startedAt := run.startedAt
        endedAt := run.endedAt.getD run.startedAt
        durationMs := run.durationMs.getD 0
        bundleHash := Sha256.hex content
        bundleSize := UInt64.ofNat content.length
        chunkSize := options.chunkSize
        chunks := infos }
    chunks := infos.map fun info => .ofRange info content }

/-- Builds the manifest of a finalized bundle that is written as this content. -/
def buildFrom (bundle : Trace.Bundle) (options : Options) (content : Bytes) :
    Except BuildFault Chunked :=
  if options.chunkSize = 0 then .error .zeroChunkSize
  else if options.compression ≠ noCompression then .error (.unknownCompression options.compression)
  else if bundle.privateRun.rootHash.isNone then .error (.notFinalized bundle.privateRun.id)
  else .ok (ofContent options bundle content)

/-- Builds the manifest of a finalized bundle. -/
def build (bundle : Trace.Bundle) (options : Options) : Except BuildFault Chunked :=
  buildFrom bundle options bundle.content

end Chronicle.Manifest
