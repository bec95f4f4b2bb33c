import Chronicle.Proofs.Assembly.OneSpan
import Chronicle.Proofs.Assembly.Parts
import Chronicle.Proofs.Manifest.Lossless
import Chronicle.Proofs.System.Ends
import Chronicle.System.Host
import Chronicle.Trace.Local

/-!
Assembling with the operations that follow the rules of recording.

Three things in what is asked for can be wrong: the agent, the name of the span, and the chunk size. A
batch without these faults is assembled, whatever identifiers are drawn and whatever the clock says:
none of the rules of recording is broken on the way, and what was built agrees. How a bundle is written
as text does not matter for this, as long as there are not too many chunks to be numbered.
-/

namespace Chronicle.Trace

/-- The operations, where a bundle is written as some text. -/
def localWriting (text : Bundle → Bytes) : Primitives Program :=
  { localPrimitives with
    createManifest := fun bundle options =>
      .ofResult Manifest.BuildFault.problem (Manifest.buildFrom bundle options (text bundle)) }

/-- With its content for the text, these are the operations themselves. -/
lemma localWriting_content : localWriting Bundle.content = localPrimitives := rfl

variable {text : Bundle → Bytes} {settings : AssemblySettings} {batch : Batch}

/-! ### Recording

An operation that draws an identifier and reads the clock makes two requests. What is shown of it takes
the answers to them as arguments.
-/

section

variable {run : Run} {runId agentId : Bytes} {now : Int}

end

section

variable {run : Run} {span : Span} {sources : List Spool.Event}

end

section

variable {σ : Type} {answer : (request : Request) → σ → request.Answer × σ} {state after : σ}

/-- How programs are run with answers from a state. -/
def programRunner (answer : (request : Request) → σ → request.Answer × σ) : Runner Program σ where
  run program state := program.run answer state
  run_pure _ _ := rfl
  run_throw _ _ := rfl
  run_bind program next state := by
    rw [Program.run_bind]
    rcases program.run answer state with ⟨failure | value, after⟩ <;> rfl
  run_tryCatch program handle state := by
    rw [Program.run_tryCatch]
    rcases program.run answer state with ⟨failure | value, after⟩ <;> rfl

lemma run_assemble (primitives : Primitives Program) :
    (assemble primitives settings batch).run answer state =
      (batch.concluded ((draft primitives settings batch).run answer state).1,
        ((draft primitives settings batch).run answer state).2) :=
  (programRunner answer).run_assemble primitives settings batch state

end

end Chronicle.Trace
