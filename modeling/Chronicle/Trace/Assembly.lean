import Chronicle.Trace.Recording
import Chronicle.Manifest.Build
import Chronicle.Manifest.Verify
import Chronicle.Spool.Event

/-!
Assembling a batch of events into a bundle with one span, and its manifest.

The operations on traces are supplied, and so is the monad they run in. What they hand back is checked:
bundle and manifest have to agree, and the manifest has to verify. Whatever goes wrong, nothing but a
failure comes out.
-/

namespace Chronicle.Trace

/-- The operations that assembling depends on. -/
structure Primitives (m : Type → Type) where
  createTrace : Bytes → m Run
  addSpan : SpanOptions → Run → m (Span × Run)
  addEvent : Bytes → EventInput → Run → m (Event × Run)
  closeSpan : Bytes → Status → Run → m (Status × Run)
  finalizeTrace : Run → m (Bundle × Run)
  createManifest : Bundle → Manifest.Options → m Manifest.Chunked

/-- What the span and the events of an assembled trace are called. -/
structure AssemblySettings where
  rootSpanName : Bytes := utf8 "OpenClawTrace"
  eventType : Bytes := utf8 "openclaw_event"
  visibility : Visibility := .hidden
  deriving DecidableEq, Repr

/-- The events of one agent that go into a bundle. -/
structure Batch where
  agentId : Bytes
  events : List Spool.Event
  chunkSize : Option UInt64 := none
  deriving Repr

structure Built where
  bundle : Bundle
  manifest : Manifest
  chunks : List Manifest.Chunk
  deriving Repr

/-- Why an assembled bundle is thrown away. -/
inductive AssemblyFault
  | disagreement (run : Bytes)
  | defective (run : Bytes) (first : Bytes)
  /-- an operation crashed with a text -/
  | crash (agent text : Bytes)
  deriving DecidableEq, Repr

namespace AssemblyFault

def message : AssemblyFault → Bytes
  | disagreement run => utf8 "Bundle and manifest disagree for run " ++ run
  | defective run first =>
    utf8 "Manifest failed verification for run " ++ run ++ utf8 ": " ++ first
  | crash agent text => utf8 "Trace build failed for agent " ++ agent ++ utf8 ": " ++ text

def problem (fault : AssemblyFault) : Problem :=
  match fault with
  | disagreement _ =>
    { category := .integrity, message := fault.message, code := utf8 "manifest_hash_mismatch" }
  | defective _ _ =>
    { category := .integrity, message := fault.message
      code := utf8 "manifest_verification_failed" }
  | crash _ _ =>
    { category := .internal, message := fault.message, code := utf8 "trace_build_failed" }

end AssemblyFault

namespace AssemblySettings

def spanOptions (settings : AssemblySettings) : SpanOptions where
  name := settings.rootSpanName
  visibility := settings.visibility

def eventInput (settings : AssemblySettings) (event : Spool.Event) : EventInput where
  eventType := settings.eventType
  data := event.payload
  visibility := settings.visibility

end AssemblySettings

/-- What is wrong with a bundle and the manifest made for it. -/
def Built.fault? (built : Built) : Option AssemblyFault :=
  let run := built.bundle.privateRun.id
  if !Digest.agree (built.bundle.manifestHash.getD []) built.manifest.manifestHash ||
      built.manifest.rootHash != built.bundle.rootHash then
    some (.disagreement run)
  else match (Manifest.verify built.manifest built.chunks).defects with
    | [] => none
    | first :: _ => some (.defective run first.message)

variable {m : Type → Type} [Monad m]

/-- Adds the events one after the other. -/
def addEvents (primitives : Primitives m) (settings : AssemblySettings) (spanId : Bytes) :
    List Spool.Event → Run → m Run
  | [], run => return run
  | event :: rest, run => do
    let (_, run) ← primitives.addEvent spanId (settings.eventInput event) run
    addEvents primitives settings spanId rest run

variable [MonadExceptOf Failure m]

/-- Calls the operations in turn and checks what comes out. -/
def assembleUnguarded (primitives : Primitives m) (settings : AssemblySettings) (batch : Batch) :
    m Built := do
  let run ← primitives.createTrace batch.agentId
  let (root, run) ← primitives.addSpan settings.spanOptions run
  let run ← addEvents primitives settings root.id batch.events run
  let (_, run) ← primitives.closeSpan root.id .completed run
  let (bundle, _) ← primitives.finalizeTrace run
  let chunked ← primitives.createManifest bundle
    { chunkSize := batch.chunkSize.getD defaultChunkSize }
  let built : Built :=
    { bundle := { bundle with manifestHash := some chunked.manifest.manifestHash }
      manifest := chunked.manifest
      chunks := chunked.chunks }
  match built.fault? with
  | some fault => throw (.reported fault.problem)
  | none => return built

/-- Assembles a batch; a crash of an operation becomes a reported problem. -/
def assemble (primitives : Primitives m) (settings : AssemblySettings) (batch : Batch) : m Built :=
  tryCatch (assembleUnguarded primitives settings batch) fun
    | .reported problem => throw (.reported problem)
    | .crashed text => throw (.reported (AssemblyFault.crash batch.agentId text).problem)

end Chronicle.Trace
