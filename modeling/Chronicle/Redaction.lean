import Chronicle.Digest.Label
import Chronicle.Pattern.Search
import Chronicle.Problem

/-!
What is kept of a payload: its digest always, its text only when the policy stores text and no secret
pattern occurs in it.
-/

namespace Chronicle

/-- Whether payload texts are stored at all. -/
inductive RedactionMode
  | hashOnly
  | storeText
  deriving DecidableEq, Repr

namespace RedactionMode

def all : List RedactionMode := [hashOnly, storeText]

def name : RedactionMode → Bytes
  | hashOnly => utf8 "hash_only"
  | storeText => utf8 "store_text"

/-- The mode of a name. -/
def ofName? (text : Bytes) : Option RedactionMode := all.find? fun mode => mode.name == text

end RedactionMode

/-- How a policy is configured. -/
structure RedactionSettings where
  mode : RedactionMode := .hashOnly
  /-- patterns of texts that must not be stored -/
  patterns : List Bytes :=
    [utf8 "AKIA[0-9A-Z]\x7b16\x7d", utf8 "-----BEGIN(.*?)PRIVATE KEY-----",
     utf8 "sk-[A-Za-z0-9]\x7b20,\x7d", utf8 "xprv[a-zA-Z0-9]\x7b20,\x7d"]
  deriving DecidableEq, Repr

/-- A policy whose patterns have been read. -/
structure Redaction where
  mode : RedactionMode
  secrets : List Pattern.Node
  deriving DecidableEq, Repr

namespace Redaction

/-- A pattern that cannot be read. -/
structure BadPattern where
  pattern : Bytes
  deriving DecidableEq, Repr

def BadPattern.problem (bad : BadPattern) : Problem where
  category := .input
  message := utf8 "Invalid secret pattern '" ++ bad.pattern ++ utf8 "': not a regular expression"
  code := utf8 "invalid_secret_pattern"

def readPatterns : List Bytes → Except BadPattern (List Pattern.Node)
  | [] => .ok []
  | pattern :: rest => do
    match Pattern.read? pattern with
    | none => .error ⟨pattern⟩
    | some node => return node :: (← readPatterns rest)

/-- Reads all patterns; the first bad one is reported. -/
def ofSettings (settings : RedactionSettings) : Except BadPattern Redaction := do
  return ⟨settings.mode, ← readPatterns settings.patterns⟩

def containsSecret (redaction : Redaction) (payload : Bytes) : Bool :=
  redaction.secrets.any fun secret => Pattern.found secret payload

/-- What is kept of a payload. -/
structure Kept where
  contentHash : Bytes
  content : Option Bytes
  secretDetected : Bool
  deriving DecidableEq, Repr

/-- The hash covers the whole payload, whatever is kept. -/
def apply (redaction : Redaction) (payload : Bytes) : Kept :=
  let secret := redaction.containsSecret payload
  { contentHash := Digest.label payload
    content := if redaction.mode = .storeText && !secret then some payload else none
    secretDetected := secret }

end Redaction

end Chronicle
