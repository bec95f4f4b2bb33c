import Chronicle.Json.Reader
import Chronicle.Storage.File
import Chronicle.Trace.Assembly

/-!
Published artifacts: bundles, their manifests and their chunks as files below an output directory.

A bundle is published by writing its chunks, then the bundle, then the manifest, so that the chunks of a
manifest that can be seen are there.
-/

namespace Chronicle.Artifact

structure Store where
  bundles : Path
  manifests : Path
  chunks : Path
  deriving DecidableEq, Repr

def manifestSuffix : Bytes := utf8 ".manifest.json"
def bundleSuffix : Bytes := utf8 ".bundle.json"
def chunkSuffix : Bytes := utf8 ".json"

inductive StoreFault
  | invalidId (bundleId : Bytes)
  | notManifest (path : Path)
  | unreadableManifest (path : Path)
  deriving DecidableEq, Repr

namespace StoreFault

def message : StoreFault → Bytes
  | invalidId bundleId => utf8 "Invalid bundle ID: " ++ bundleId
  | notManifest path => utf8 "Not a manifest file name: " ++ path.text
  | unreadableManifest path => utf8 "Manifest is not valid JSON: " ++ path.text

def problem (fault : StoreFault) : Problem :=
  match fault with
  | invalidId _ => { category := .input, message := fault.message, code := utf8 "invalid_bundle_id" }
  | notManifest _ =>
    { category := .input, message := fault.message, code := utf8 "invalid_manifest_path"
      hint := utf8 "Expected <bundleId>.manifest.json" }
  | unreadableManifest _ =>
    { category := .parse, message := fault.message, code := utf8 "invalid_manifest" }

end StoreFault

/-! ### Names -/

/-- Whether an identifier can name artifacts. -/
def isUsable (bundleId : Bytes) : Bool :=
  !bundleId.isEmpty && !bundleId.any (· == Bytes.slash) && bundleId != [Bytes.dot] &&
    bundleId != [Bytes.dot, Bytes.dot]

def checkId (bundleId : Bytes) : Except StoreFault Unit :=
  if isUsable bundleId then .ok () else .error (.invalidId bundleId)

/-- The identifier in the name of a manifest file. -/
def bundleIdOf (path : Path) : Except StoreFault Bytes :=
  let name := path.fileName
  if Bytes.endsWith name manifestSuffix && name.length != manifestSuffix.length then
    .ok (name.take (name.length - manifestSuffix.length))
  else .error (.notManifest path)

namespace Store

/-- The artifacts below an output directory. -/
def below (directory : Path) : Store where
  bundles := directory.join (utf8 "bundles")
  manifests := directory.join (utf8 "manifests")
  chunks := directory.join (utf8 "chunks")

def bundleFile (store : Store) (bundleId : Bytes) : Path :=
  store.bundles.join (bundleId ++ bundleSuffix)

def manifestFile (store : Store) (bundleId : Bytes) : Path :=
  store.manifests.join (bundleId ++ manifestSuffix)

def chunkDirectory (store : Store) (bundleId : Bytes) : Path := store.chunks.join bundleId

def chunkFile (store : Store) (bundleId hash : Bytes) : Path :=
  (store.chunkDirectory bundleId).join (hash ++ chunkSuffix)

/-! ### Writing -/

def check (bundleId : Bytes) : Program Unit := .ofResult StoreFault.problem (checkId bundleId)

/-- A document as the text of a file. -/
def textOf (document : Json) : Bytes := document.indented ++ [Bytes.newline]

def writeBundle (store : Store) (bundleId : Bytes) (bundle : Trace.Bundle) : Program Path := do
  check bundleId
  Storage.writeAtomically (store.bundleFile bundleId) (textOf bundle.document)

def writeManifest (store : Store) (bundleId : Bytes) (manifest : Manifest) : Program Path := do
  check bundleId
  Storage.writeAtomically (store.manifestFile bundleId) (textOf manifest.document)

def writeEach (store : Store) (bundleId : Bytes) : List Manifest.Chunk → Program Unit
  | [] => return ()
  | chunk :: rest => do
    let _ ← Storage.writeAtomically (store.chunkFile bundleId chunk.info.hash) chunk.content
    store.writeEach bundleId rest

/-- Writes each chunk to a file that is named by its hash. -/
def writeChunks (store : Store) (bundleId : Bytes) (chunks : List Manifest.Chunk) :
    Program Path := do
  check bundleId
  store.writeEach bundleId chunks
  return store.chunkDirectory bundleId

/-- Where the artifacts of a bundle were written. -/
structure Published where
  bundle : Path
  manifest : Path
  chunks : Path
  deriving DecidableEq, Repr

/-- Chunks first, the manifest last. -/
def publish (store : Store) (bundleId : Bytes) (built : Trace.Built) : Program Published := do
  let chunks ← store.writeChunks bundleId built.chunks
  let bundle ← store.writeBundle bundleId built.bundle
  let manifest ← store.writeManifest bundleId built.manifest
  return ⟨bundle, manifest, chunks⟩

/-! ### Reading -/

structure Loaded where
  manifest : Manifest
  chunks : List Manifest.Chunk
  deriving DecidableEq, Repr

/-- The chunks of entries as far as their files are there. -/
def loadChunks (store : Store) (bundleId : Bytes) :
    List Manifest.ChunkInfo → Program (List Manifest.Chunk)
  | [] => return []
  | info :: rest => do
    let path := store.chunkFile bundleId info.hash
    if ← Storage.pathExists path then
      let content ← Storage.contentOf path
      return .ofContent info content :: (← store.loadChunks bundleId rest)
    else store.loadChunks bundleId rest

/-- A published manifest with the chunks it lists. -/
def load (store : Store) (bundleId : Bytes) : Program Loaded := do
  check bundleId
  let path := store.manifestFile bundleId
  match Json.read? (← Storage.contentOf path) with
  | none => .report (StoreFault.unreadableManifest path).problem
  | some document =>
    let manifest ← .ofResult Manifest.DocumentFault.problem (Manifest.ofDocument document)
    return ⟨manifest, ← store.loadChunks bundleId manifest.chunks⟩

/-- The identifier of a manifest among what a directory lists. -/
def listedId? (found : Disk.Found) : Option Bytes :=
  if found.regular then (bundleIdOf found.path).toOption else none

/-- The identifiers of all published manifests, in ascending order. -/
def listBundleIds (store : Store) : Program (List Bytes) := do
  if ← Storage.isDirectory store.manifests then
    let found ← Program.request (.list store.manifests)
    return sortBy Bytes.precedes (found.filterMap listedId?)
  else return []

end Store

end Chronicle.Artifact
