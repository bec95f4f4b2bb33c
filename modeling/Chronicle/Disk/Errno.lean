import Chronicle.Bytes

/-!
Reasons for which the operating system refuses an operation on a path.
-/

namespace Chronicle

inductive Errno
  | noEntry
  | notDirectory
  | isDirectory
  | exists
  | nameTooLong
  | tooManyLinks
  | tooManyFiles
  | busy
  | invalid
  | notSupported
  | notEmpty
  /-- another reason, with its text -/
  | other (text : Bytes)
  deriving DecidableEq, Repr

def Errno.message : Errno → Bytes
  | noEntry => utf8 "No such file or directory"
  | notDirectory => utf8 "Not a directory"
  | isDirectory => utf8 "Is a directory"
  | .exists => utf8 "File exists"
  | nameTooLong => utf8 "File name too long"
  | tooManyLinks => utf8 "Too many levels of symbolic links"
  | tooManyFiles => utf8 "Too many open files"
  | busy => utf8 "Device or resource busy"
  | invalid => utf8 "Invalid argument"
  | notSupported => utf8 "Operation not supported"
  | notEmpty => utf8 "Directory not empty"
  | other text => text

end Chronicle
