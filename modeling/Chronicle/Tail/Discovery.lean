import Chronicle.Storage.File

/-!
Finding the logs below a directory.

A log is a regular file, or a link to one, whose name has the extension of a log. Logs are listed in
ascending order of their paths.
-/

namespace Chronicle.Tail

def logExtension : Bytes := utf8 ".jsonl"

def isLog (found : Disk.Found) : Bool := found.regular && found.path.extension == logExtension

/-- The logs among what was found, in order. -/
def logsOf (found : List Disk.Found) : List Path := Path.sorted ((found.filter isLog).map (·.path))

/-- The logs below a directory; what is no directory has none. -/
def findLogs (root : Path) : Program (List Path) := do
  if ← Storage.isDirectory root then
    match ← Program.request (.walk root) with
    | .ok found => return logsOf found
    | .error reason =>
      Program.logWarning
        (utf8 "Discovery: stopped walking " ++ root.text ++ utf8 ": " ++ reason.message)
      return []
  else
    Program.logDebug (utf8 "Discovery: skipping missing directory " ++ root.text)
    return []

end Chronicle.Tail
