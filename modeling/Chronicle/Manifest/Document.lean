import Chronicle.Manifest.Chunk
import Chronicle.Problem
import Chronicle.Trace.Hash

/-!
Manifests: what a bundle consists of, chunk by chunk, and the hash over all of that.
-/

namespace Chronicle

/-- The default of the largest chunk size. -/
def defaultChunkSize : UInt64 := 500000

structure Manifest where
  version : Bytes := Trace.formatVersion
  runId : Bytes := []
  agentId : Bytes := []
  rootHash : Bytes := []
  merkleRoot : Bytes := []
  totalEvents : UInt64 := 0
  totalSpans : UInt64 := 0
  startedAt : Bytes := []
  endedAt : Bytes := []
  durationMs : Int := 0
  /-- the digest of the whole content -/
  bundleHash : Bytes := []
  bundleSize : UInt64 := 0
  chunkSize : UInt64 := defaultChunkSize
  chunks : List Manifest.ChunkInfo := []
  manifestHash : Bytes := []
  deriving DecidableEq, Repr

namespace Manifest

open Trace (member)

def word (n : UInt64) : Json := .nat n.toNat

def ChunkInfo.document (info : ChunkInfo) : Json :=
  .ofMembers
    [member "index" (.nat info.index.toNat), member "hash" (.string info.hash),
     member "offset" (word info.offset), member "size" (word info.size),
     member "compression" (.string info.compression)]

/-- The fields that the manifest hash covers, which are all others. -/
def body (manifest : Manifest) : List (Bytes × Json) :=
  [member "formatVersion" (.string manifest.version), member "runId" (.string manifest.runId),
   member "agentId" (.string manifest.agentId), member "rootHash" (.string manifest.rootHash),
   member "merkleRoot" (.string manifest.merkleRoot),
   member "totalEvents" (word manifest.totalEvents), member "totalSpans" (word manifest.totalSpans),
   member "startedAt" (.string manifest.startedAt), member "endedAt" (.string manifest.endedAt),
   member "durationMs" (.number manifest.durationMs),
   member "bundleHash" (.string manifest.bundleHash), member "bundleSize" (word manifest.bundleSize),
   member "chunkSize" (word manifest.chunkSize),
   member "chunks" (.array (manifest.chunks.map ChunkInfo.document))]

def document (manifest : Manifest) : Json :=
  .ofMembers (manifest.body ++ [member "manifestHash" (.string manifest.manifestHash)])

/-- The text that the manifest hash is the digest of. -/
def hashText (manifest : Manifest) : Bytes :=
  Trace.Domain.manifest ++ (Json.ofMembers manifest.body).compact

/-- The hash that a manifest has to carry. -/
def computeHash (manifest : Manifest) : Bytes := Sha256.hex manifest.hashText

/-! ### Reading -/

/-- Why a document is no manifest. -/
inductive DocumentFault
  | notObject
  | missing (key : Bytes)
  | noMembers (found : Bytes)
  | wrongType (wanted found : Bytes)
  deriving DecidableEq, Repr

def DocumentFault.message : DocumentFault → Bytes
  | notObject => utf8 "Manifest must be a JSON object."
  | missing key =>
    utf8 "Malformed manifest: [json.exception.out_of_range.403] key '" ++ key ++ utf8 "' not found"
  | noMembers found =>
    utf8 "Malformed manifest: [json.exception.type_error.304] cannot use at() with " ++ found
  | wrongType wanted found =>
    utf8 "Malformed manifest: [json.exception.type_error.302] type must be " ++ wanted
      ++ utf8 ", but is " ++ found

def DocumentFault.problem (fault : DocumentFault) : Problem where
  category := .parse
  message := fault.message
  code := utf8 "invalid_manifest"

namespace Reading

/-- A member of an object; nothing else has members. -/
def required (document : Json) (key : String) : Except DocumentFault Json :=
  if !document.isObject then .error (.noMembers document.kind)
  else match document.find? (utf8 key) with
    | some value => .ok value
    | none => .error (.missing (utf8 key))

/-- A member that is read as a value of some kind. -/
def field {α : Type} (wanted : String) (read? : Json → Option α) (document : Json) (key : String) :
    Except DocumentFault α := do
  let value ← required document key
  match read? value with
  | some value => return value
  | none => .error (.wrongType (utf8 wanted) value.kind)

def textField := field "string" Json.string?
def integerField := field "number" Json.whole?
def word32Field := field "number" Json.word32?
def word64Field := field "number" Json.word64?

def chunkInfo (document : Json) : Except DocumentFault ChunkInfo := do
  return {
    index := ← word32Field document "index"
    hash := ← textField document "hash"
    offset := ← word64Field document "offset"
    size := ← word64Field document "size"
    compression := ← textField document "compression" }

end Reading

open Reading in
/-- Reads a manifest back. The entries of its chunks may be the values of an object as well as the items of an
array. -/
def ofDocument (document : Json) : Except DocumentFault Manifest := do
  if !document.isObject then .error .notObject
  let manifest : Manifest := {
    version := ← textField document "formatVersion"
    runId := ← textField document "runId"
    agentId := ← textField document "agentId"
    rootHash := ← textField document "rootHash"
    merkleRoot := ← textField document "merkleRoot"
    totalEvents := ← word64Field document "totalEvents"
    totalSpans := ← word64Field document "totalSpans"
    startedAt := ← textField document "startedAt"
    endedAt := ← textField document "endedAt"
    durationMs := ← integerField document "durationMs"
    bundleHash := ← textField document "bundleHash"
    bundleSize := ← word64Field document "bundleSize"
    chunkSize := ← word64Field document "chunkSize"
    manifestHash := ← textField document "manifestHash" }
  let chunks ← required document "chunks"
  return { manifest with chunks := ← chunks.visited.mapM chunkInfo }

end Manifest

end Chronicle
