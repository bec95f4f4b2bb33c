import Chronicle.Recorder.Cycle

/-!
Running cycles until a stop is requested.

Between two cycles a recorder waits in short slices, so that a stop is noticed soon. The wait has a base
length and a random extra, by which recorders do not all wake up at once.
-/

namespace Chronicle.Recorder

/-- A base delay and a random extra below as many seconds; without any, the base alone. The sum wraps. -/
def jittered (base : UInt64) (jitterSeconds : UInt32) : Program UInt64 := do
  if jitterSeconds = 0 then return base
  else return base + (← Program.request (.drawBelow (jitterSeconds.toUInt64 * 1000)))

/-- The length of a slice in milliseconds. -/
def slice : Nat := 100

/-- Waits in slices until a stop is requested or the deadline has passed. -/
def waitUntil (deadline : Int) : Nat → Program Unit
  | 0 => return ()
  | slices + 1 => do
    if ← Program.request .stopRequested then return ()
    else if (← Trace.readClock) < deadline then
      Program.request (.pause slice)
      waitUntil deadline slices
    else return ()

/-- Waits for the next cycle. No more slices are needed than fit into the delay, one begun included. -/
def waitForNextCycle (recorder : Recorder) : Program Unit := do
  let delay ← jittered (recorder.config.scanEverySeconds.toUInt64 * 1000)
    recorder.config.jitterSeconds
  let deadline := (← Trace.readClock) + delay.toNat
  waitUntil deadline (delay.toNat / slice + 1)

/-- Runs cycles, at most as many as given, until a stop is requested; says how many completed. -/
def runUntilStopped (recorder : Recorder) : Nat → Nat → Program Nat
  | 0, completed => return completed
  | cycles + 1, completed => do
    if ← Program.request .stopRequested then return completed
    else
      let completed ← match ← recorder.runCycle.attempt with
        | .ok _ => pure (completed + 1)
        | .error problem =>
          Program.logError (utf8 "Recorder: cycle failed " ++ describe problem)
          if !problem.hint.isEmpty then Program.logInfo (utf8 "Hint: " ++ problem.hint)
          pure completed
      recorder.waitForNextCycle
      recorder.runUntilStopped cycles completed

end Chronicle.Recorder
