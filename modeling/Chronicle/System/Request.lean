import Chronicle.Disk.Operations
import Chronicle.Log.Line

/-!
What a program can ask of the system it runs on, and what it gets for an answer.
-/

namespace Chronicle

inductive Request
  /-- kind and size of what a path leads to -/
  | status (path : Path)
  /-- make a directory and all that is missing above it -/
  | makeDirectories (path : Path)
  /-- read a file whole -/
  | read (path : Path)
  /-- replace the content of a file -/
  | overwrite (path : Path) (data : Bytes)
  /-- add to the end of a file -/
  | append (path : Path) (data : Bytes)
  /-- move a file to another name -/
  | rename (source target : Path)
  /-- remove a file, a link or an empty directory -/
  | remove (path : Path)
  /-- change the size of a file -/
  | truncate (path : Path) (size : Nat)
  /-- the entries of a directory -/
  | list (path : Path)
  /-- the entries below a directory in all levels -/
  | walk (path : Path)
  /-- the absolute path without links -/
  | canonical (path : Path)
  | workingDirectory
  /-- the home directory that the environment names -/
  | home
  /-- write a line to the log -/
  | log (level : Log.Level) (message : Bytes)
  /-- set the tag of log lines -/
  | setContext (context : Bytes)
  /-- set the least level that is logged -/
  | setLeast (level : Log.Level)
  /-- draw random numbers below sixteen -/
  | draws (count : Nat)
  /-- draw a random number below a bound -/
  | drawBelow (bound : UInt64)
  /-- the time in milliseconds since the start of 1970 -/
  | now
  /-- whether the program has been asked to stop -/
  | stopRequested
  /-- let time pass -/
  | pause (milliseconds : Nat)
  deriving DecidableEq, Repr

namespace Request

/-- The type of the answer to a request. -/
abbrev Answer : Request → Type
  | status _ => Except Errno Disk.Status
  | makeDirectories _ => Option Errno
  | read _ => Disk.ReadResult
  | overwrite _ _ => Disk.WriteResult
  | append _ _ => Disk.WriteResult
  | rename _ _ => Option Errno
  | remove _ => Option Errno
  | truncate _ _ => Option Errno
  | list _ => List Disk.Found
  | walk _ => Except Errno (List Disk.Found)
  | canonical _ => Except Errno Path
  | workingDirectory => Except Errno Path
  | home => Option Bytes
  | log _ _ => Unit
  | setContext _ => Unit
  | setLeast _ => Unit
  | draws _ => List Nat
  | drawBelow _ => UInt64
  | now => Int
  | stopRequested => Bool
  | pause _ => Unit

end Request

end Chronicle
