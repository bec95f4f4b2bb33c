import Chronicle.Trace.Assembly
import Chronicle.Ident
import Chronicle.System.Program

/-!
The operations on traces with identifiers and times from the system.
-/

namespace Chronicle.Trace

/-- A new identifier. -/
def newId : Program Bytes := return Ident.unique (← Program.request (.draws 32))

def readClock : Program Int := Program.request .now

/-- As many readings of the clock, one after the other. -/
def readings : Nat → Program (List Int)
  | 0 => return []
  | count + 1 => return (← readClock) :: (← readings count)

/-- The result of an operation with the run it left; a refusal fails. -/
def settle {α : Type} : Except Fault α × Run → Program (α × Run)
  | (.ok value, run) => return (value, run)
  | (.error fault, _) => .report fault.problem

/-- Operations that follow the rules of recording. -/
def localPrimitives : Primitives Program where
  createTrace agentId := do
    .ofResult Fault.problem (Run.create (← newId) (← readClock) agentId)
  addSpan options run := do settle (run.addSpan (← newId) (← readClock) options)
  addEvent spanId input run := do settle (run.addEvent (← newId) (← readClock) spanId input)
  closeSpan spanId status run := do settle (run.closeSpan (← readClock) spanId status)
  finalizeTrace run := do settle (run.finalize (← readings run.spans.length) (← readClock))
  createManifest bundle options :=
    .ofResult Manifest.BuildFault.problem (Manifest.build bundle options)

end Chronicle.Trace
