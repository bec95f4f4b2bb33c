import Chronicle.Disk.Outside
import Chronicle.System.Program

/-!
A host that is a value: a disk, a log, a clock, a source of identifiers, and the stops and the meddling
that come from outside while a program runs.

Others act when a log line appears: a watch waits for a text and acts once, at the first line that
contains it. Random numbers come from a counter, so identifiers drawn one after the other differ.
-/

namespace Chronicle

/-- What others do. -/
inductive Disturbance
  | put (path : Path) (data : Bytes)
  | removeAll (path : Path)
  | makeDirectories (path : Path)
  | stop
  | stopAfter (milliseconds : Nat)
  deriving DecidableEq, Repr

/-- A disturbance and the text in a log line that sets it off. -/
structure Watch where
  trigger : Bytes
  disturbance : Disturbance
  deriving DecidableEq, Repr

/-- A line that was written, and where. -/
structure Printed where
  stream : Log.Stream
  line : Bytes
  deriving DecidableEq, Repr

structure Host where
  disk : Disk := {}
  /-- the working directory -/
  here : Disk.Standing := .inside []
  home : Option Bytes := none
  limits : Disk.Limits := {}
  logger : Log.Logger := {}
  /-- the lines written so far, the latest first -/
  printed : List Printed := []
  /-- how many identifiers have been drawn -/
  drawn : Nat := 0
  clock : Int := 0
  /-- whether a stop has been requested -/
  stopping : Bool := false
  /-- instants at which a stop will be requested -/
  stops : List Int := []
  watches : List Watch := []
  deriving DecidableEq, Repr

namespace Host

def disturb (host : Host) : Disturbance → Host
  | .put path data => { host with disk := host.disk.put host.here path data }
  | .removeAll path => { host with disk := (host.disk.removeAll host.here path).2 }
  | .makeDirectories path => { host with disk := (host.disk.makeDirectories host.here path).2 }
  | .stop => { host with stopping := true }
  | .stopAfter milliseconds => { host with stops := (host.clock + milliseconds) :: host.stops }

/-- Writes one line; the watches it sets off act in turn and are gone. -/
def print (host : Host) (stream : Log.Stream) (line : Bytes) : Host :=
  let due := host.watches.filter fun watch => Bytes.contains line watch.trigger
  let waiting := host.watches.filter fun watch => !Bytes.contains line watch.trigger
  (due.map (·.disturbance)).foldl disturb
    { host with printed := ⟨stream, line⟩ :: host.printed, watches := waiting }

/-- Writes a message as the lines it consists of, if its level is shown. -/
def log (host : Host) (level : Log.Level) (message : Bytes) : Host :=
  if host.logger.shows level then
    (Bytes.splitOn Bytes.newline (host.logger.line level message)).foldl
      (fun host line => host.print level.stream line) host
  else host

/-- Lets time pass; stops that fall due are requested. -/
def pause (host : Host) (milliseconds : Nat) : Host :=
  let clock := host.clock + milliseconds
  { host with
    clock := clock
    stopping := host.stopping || host.stops.any fun stop => stop ≤ clock
    stops := host.stops.filter fun stop => clock < stop }

/-- The last `count` digits of a number in base sixteen. -/
def lastDigits : Nat → Nat → List Nat
  | 0, _ => []
  | count + 1, n => lastDigits count (n / 16) ++ [n % 16]

/-- Keeps the old disk where an operation is refused. -/
def withDisk (host : Host) : Except Errno Disk → Option Errno × Host
  | .ok disk => (none, { host with disk := disk })
  | .error reason => (some reason, host)

/-- How the host answers. -/
def answer : (request : Request) → Host → request.Answer × Host
  | .status path, host => (host.disk.status host.here path, host)
  | .makeDirectories path, host =>
    let (refusal, disk) := host.disk.makeDirectories host.here path
    (refusal, { host with disk := disk })
  | .read path, host => (host.disk.read host.here host.limits path, host)
  | .overwrite path data, host =>
    let (result, disk) := host.disk.overwrite host.here host.limits path data
    (result, { host with disk := disk })
  | .append path data, host =>
    let (result, disk) := host.disk.append host.here host.limits path data
    (result, { host with disk := disk })
  | .rename source target, host => host.withDisk (host.disk.rename host.here source target)
  | .remove path, host => host.withDisk (host.disk.remove host.here path)
  | .truncate path size, host => host.withDisk (host.disk.truncate host.here path size)
  | .list path, host => (if host.limits.opening then host.disk.list host.here path else [], host)
  | .walk path, host =>
    (if host.limits.opening then host.disk.walk host.here path else .error .tooManyFiles, host)
  | .canonical path, host => (host.disk.canonical host.here path, host)
  | .workingDirectory, host => (Disk.workingDirectory host.here, host)
  | .home, host => (host.home, host)
  | .log level message, host => ((), host.log level message)
  | .setContext context, host => ((), { host with logger := { host.logger with context } })
  | .setLeast level, host => ((), { host with logger := { host.logger with least := level } })
  | .draws count, host => (lastDigits count host.drawn, { host with drawn := host.drawn + 1 })
  | .drawBelow bound, host =>
    (UInt64.ofNat host.drawn % bound, { host with drawn := host.drawn + 1 })
  | .now, host => (host.clock, host)
  | .stopRequested, host => (host.stopping, host)
  | .pause milliseconds, host => ((), host.pause milliseconds)

end Host

/-- Runs a program on a host. -/
def Program.runOn {α : Type} (program : Program α) (host : Host) : Except Failure α × Host :=
  program.run Host.answer host

end Chronicle
