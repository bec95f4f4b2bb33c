import Chronicle.Config.Settings

/-!
Reading a configuration from a document.

Fields that are absent keep their defaults and unknown fields are ignored; a field of the wrong type is a
fault.
-/

namespace Chronicle.Config

inductive DocumentFault
  | unreadable (message : Bytes)
  | notObject (path : Path)
  | wrongType (field : Bytes)
  | unknownMode (name : Bytes)
  | unknownVisibility (name : Bytes)
  deriving DecidableEq, Repr

namespace DocumentFault

def problem : DocumentFault → Problem
  | unreadable message =>
    { category := .input, message := message, code := utf8 "config_unreadable" }
  | notObject path =>
    { category := .input, message := utf8 "Config is not a JSON object: " ++ path.text
      code := utf8 "invalid_config" }
  | wrongType field =>
    { category := .input, message := utf8 "Config field has the wrong type: " ++ field
      code := utf8 "invalid_config_field" }
  | unknownMode name =>
    { category := .input, message := utf8 "Unknown redaction mode: " ++ name
      code := utf8 "invalid_redaction_mode", hint := utf8 "Use \"hash_only\" or \"store_text\"." }
  | unknownVisibility name =>
    { category := .input, message := utf8 "Unknown visibility: " ++ name
      code := utf8 "invalid_visibility" }

end DocumentFault

/-- A field that keeps its default if it is absent. -/
def field {α : Type} (document : Json) (key : String) (read? : Json → Option α) (otherwise : α) :
    Except DocumentFault α :=
  match document.find? (utf8 key) with
  | none => .ok otherwise
  | some value =>
    match read? value with
    | some value => .ok value
    | none => .error (.wrongType (utf8 key))

def texts? : Json → Option (List Bytes)
  | .array items => items.mapM Json.string?
  | _ => none

/-- A group of fields; what is no object counts as absent. -/
def group (document : Json) (key : String) : Json :=
  match document.find? (utf8 key) with
  | some (.object members) => .object members
  | _ => .emptyObject

def redactionOf (document : Json) : Except DocumentFault RedactionSettings := do
  let defaults : RedactionSettings := {}
  let mode ← field document "mode" Json.string? defaults.mode.name
  let patterns ← field document "secretRegexes" texts? defaults.patterns
  match RedactionMode.ofName? mode with
  | some mode => return ⟨mode, patterns⟩
  | none => .error (.unknownMode mode)

def ofDocument (document : Json) : Except DocumentFault Config := do
  let defaults : Config := {}
  let root ← field document "openclawRoot" Json.string? []
  let sessionDirs ← field document "sessionDirs" texts? defaults.sessionDirs
  let outDir ← field document "outDir" Json.string? []
  let redaction ← redactionOf (group document "redaction")
  let schedule := group document "schedule"
  let scanEverySeconds ← field schedule "scanEverySeconds" Json.word32? defaults.scanEverySeconds
  let jitterSeconds ← field schedule "jitterSeconds" Json.word32? defaults.jitterSeconds
  let trace := group document "trace"
  let chunkSize ← field trace "chunkSize" Json.word64? defaults.chunkSize
  let rootSpanName ← field trace "rootSpanName" Json.string? defaults.assembly.rootSpanName
  let eventType ← field trace "eventType" Json.string? defaults.assembly.eventType
  let visibility ← field trace "visibility" Json.string? defaults.assembly.visibility.name
  match Trace.Visibility.ofName? visibility with
  | none => .error (.unknownVisibility visibility)
  | some visibility =>
    return {
      root := ⟨root⟩
      sessionDirs, outDir := ⟨outDir⟩
      redaction, scanEverySeconds, jitterSeconds, chunkSize
      assembly := ⟨rootSpanName, eventType, visibility⟩ }

/-- Reads and validates the configuration in a file. -/
def load (path : Path) : Program Config := do
  match ← (Storage.contentOf path).attempt with
  | .error problem => .report (DocumentFault.unreadable problem.message).problem
  | .ok text =>
    match Json.read? text with
    | some (.object members) =>
      (← .ofResult DocumentFault.problem (ofDocument (.object members))).validated
    | _ => .report (DocumentFault.notObject path).problem

end Chronicle.Config
