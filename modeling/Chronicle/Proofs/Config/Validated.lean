import Chronicle.Config.Settings
import Chronicle.Proofs.Config.Normal
import Chronicle.Proofs.Disk.Names
import Chronicle.Proofs.System.Stops

/-!
What a configuration is after it was checked.

A configuration that breaks a rule is refused for the first rule it breaks. One that breaks none gets its two
paths filled in and brought into normal form, and nothing else about it changes. Absolute paths in normal form
depend on no directory and no variable, so checking such a configuration once more changes nothing, wherever
this is done.
-/

namespace Chronicle

variable {directory path : Path} {name : Bytes}

/-! ### Absolute paths -/

/-- What a path stands for in a working directory. -/
def Path.absoluteFrom (directory path : Path) : Path :=
  if path.isAbsolute then path else directory.join path.text

lemma not_isEmpty_of_isAbsolute (h : path.isAbsolute = true) : path.isEmpty = false := by
  rw [Path.isAbsolute, beq_iff_eq] at h
  rw [Path.isEmpty, List.isEmpty_eq_false_iff]
  intro hnil
  rw [hnil] at h
  cases h

lemma Path.isAbsolute_join (h : directory.isAbsolute = true) (name : Bytes) :
    (directory.join name).isAbsolute = true := by
  obtain ⟨rest, htext⟩ : ∃ rest, directory.text = Bytes.slash :: rest :=
    List.head?_eq_some_iff.mp (by simpa [Path.isAbsolute] using h)
  unfold Path.join
  split
  · next hreplaced =>
    rcases Bool.or_eq_true_iff.mp hreplaced with hname | hempty
    · exact hname
    · simp [Path.isEmpty, htext] at hempty
  split <;> simp [Path.isAbsolute, htext]

lemma Path.isAbsolute_absoluteFrom (h : directory.isAbsolute = true) (path : Path) :
    (absoluteFrom directory path).isAbsolute = true := by
  unfold absoluteFrom
  split
  · assumption
  · exact isAbsolute_join h _

lemma Disk.isAbsolute_pathOf (key : Key) : (pathOf key).isAbsolute = true := by
  rcases key with _ | ⟨first, rest⟩ <;> rfl

lemma Path.not_isEmpty_join (hname : IsName name) (directory : Path) : (directory.join name).isEmpty = false := by
  rw [Path.isEmpty, List.isEmpty_eq_false_iff]
  exact (hname.unended_join directory).ne_nil

namespace Config

variable {config : Config} {host : Host} {key : Key} {settings : Environment}

lemma normalize_eq (hworking : settings.workingDirectory = .ok directory) (hgiven : path.isEmpty = false) :
    settings.normalize path = (Path.absoluteFrom directory path).normalized := by
  unfold Environment.normalize Path.absoluteFrom
  rw [hgiven, hworking]
  cases path.isAbsolute <;> rfl

lemma isNormal_normalize (hworking : settings.workingDirectory = .ok directory)
    (habsolute : directory.isAbsolute = true) (hgiven : path.isEmpty = false) :
    (settings.normalize path).IsNormal := by
  rw [normalize_eq hworking hgiven]
  exact Path.isNormal_normalized (Path.isAbsolute_absoluteFrom habsolute path)

lemma normalize_of_isNormal (h : path.IsNormal) (settings : Environment) : settings.normalize path = path := by
  unfold Environment.normalize
  rw [not_isEmpty_of_isAbsolute h.isAbsolute, h.isAbsolute, h.normalized_eq]
  rfl

lemma not_isEmpty_givenRoot (settings : Environment) (config : Config) :
    (if config.root.isEmpty then settings.homeDirectory.join (utf8 ".openclaw") else config.root).isEmpty =
      false := by
  have hname : IsName (utf8 ".openclaw") := ⟨by decide, by decide, by decide, by decide, by decide⟩
  split
  · exact Path.not_isEmpty_join hname _
  · next hgiven => simpa using hgiven

lemma not_isEmpty_givenOutDir (root : Path) (config : Config) :
    (if config.outDir.isEmpty then defaultOutDir root else config.outDir).isEmpty = false := by
  have hname : IsName (utf8 "recorder") := ⟨by decide, by decide, by decide, by decide, by decide⟩
  split
  · exact Path.not_isEmpty_join hname _
  · next hgiven => simpa using hgiven

section NormalizePaths

variable (hworking : settings.workingDirectory = .ok directory) (habsolute : directory.isAbsolute = true)

include hworking

lemma normalizePaths_root (hgiven : config.root.isEmpty = false) :
    (config.normalizePaths settings).root = (Path.absoluteFrom directory config.root).normalized := by
  rw [← normalize_eq hworking hgiven, normalizePaths, hgiven]
  rfl

lemma normalizePaths_outDir (hgiven : config.outDir.isEmpty = false) :
    (config.normalizePaths settings).outDir = (Path.absoluteFrom directory config.outDir).normalized := by
  rw [← normalize_eq hworking hgiven, normalizePaths, hgiven]
  rfl

include habsolute

lemma isNormal_normalizePaths_root (config : Config) : (config.normalizePaths settings).root.IsNormal :=
  isNormal_normalize hworking habsolute (not_isEmpty_givenRoot settings config)

lemma isNormal_normalizePaths_outDir (config : Config) : (config.normalizePaths settings).outDir.IsNormal :=
  isNormal_normalize hworking habsolute (not_isEmpty_givenOutDir _ config)

lemma normalizePaths_outDir_default (hempty : config.outDir.isEmpty = true) :
    (config.normalizePaths settings).outDir =
      (defaultOutDir (config.normalizePaths settings).root).normalized := by
  have hgiven : (config.normalizePaths settings).outDir =
      settings.normalize (defaultOutDir (config.normalizePaths settings).root) := by
    simp only [normalizePaths, hempty, if_true]
  have hroot := isNormal_normalizePaths_root hworking habsolute config
  have hdefault : (defaultOutDir (config.normalizePaths settings).root).isAbsolute = true :=
    Path.isAbsolute_join (Path.isAbsolute_join hroot.isAbsolute _) _
  rw [hgiven, Environment.normalize, not_isEmpty_of_isAbsolute hdefault, hdefault]
  rfl

end NormalizePaths

/-- **Paths in normal form** stay, whatever is outside. -/
theorem normalizePaths_of_isNormal (hroot : config.root.IsNormal) (hout : config.outDir.IsNormal)
    (settings : Environment) : config.normalizePaths settings = config := by
  have hgivenRoot := not_isEmpty_of_isAbsolute hroot.isAbsolute
  have hgivenOut := not_isEmpty_of_isAbsolute hout.isAbsolute
  simp only [normalizePaths, hgivenRoot, hgivenOut, Bool.false_eq_true, if_false,
    normalize_of_isNormal hroot, normalize_of_isNormal hout]

/-! ### Rules -/

/-- What a configuration that breaks a rule looks like. -/
def Violation.IsBroken (config : Config) : Violation → Prop
  | noSessionDirs => config.sessionDirs = []
  | shortInterval => config.scanEverySeconds.toNat < 2
  | zeroChunkSize => config.chunkSize.toNat = 0
  | emptyName => config.assembly.rootSpanName = [] ∨ config.assembly.eventType = []

/-- The rules in the order in which they are checked. -/
def Violation.inOrder : List Violation := [noSessionDirs, shortInterval, zeroChunkSize, emptyName]

/-- A rule is broken, and none of those that are checked before it is. -/
def FirstBroken (config : Config) (violation : Violation) : Prop :=
  violation.IsBroken config ∧ ∃ passed rest, Violation.inOrder = passed ++ violation :: rest ∧
    ∀ other ∈ passed, ¬ other.IsBroken config

lemma Violation.mem_inOrder (violation : Violation) : violation ∈ inOrder := by
  cases violation <;> decide

open Classical in
lemma violation?_eq (config : Config) :
    config.violation? = Violation.inOrder.find? fun violation => violation.IsBroken config := by
  have hinterval : config.scanEverySeconds < 2 ↔ config.scanEverySeconds.toNat < 2 := UInt32.lt_iff_toNat_lt
  have hchunk : config.chunkSize = 0 ↔ config.chunkSize.toNat = 0 := UInt64.toNat_inj.symm
  simp only [violation?, Violation.inOrder, List.find?, Violation.IsBroken, List.isEmpty_iff, Bool.or_eq_true,
    hinterval, hchunk]
  by_cases hdirs : config.sessionDirs = []
  · simp [hdirs]
  by_cases hshort : config.scanEverySeconds.toNat < 2
  · simp [hdirs, hshort]
  by_cases hzero : config.chunkSize.toNat = 0
  · simp [hdirs, hshort, hzero]
  by_cases hname : config.assembly.rootSpanName = [] ∨ config.assembly.eventType = []
  · simp [hdirs, hshort, hzero, hname]
  · simp [hdirs, hshort, hzero, hname]

lemma violation?_spec (config : Config) :
    match config.violation? with
    | some violation => config.FirstBroken violation
    | none => ∀ violation : Violation, ¬ violation.IsBroken config := by
  classical
  rcases hviolation : config.violation? with _ | violation
  · rw [violation?_eq, List.find?_eq_none] at hviolation
    intro violation
    simpa using hviolation violation violation.mem_inOrder
  · rw [violation?_eq, List.find?_eq_some_iff_append] at hviolation
    obtain ⟨hbroken, passed, rest, horder, hpassed⟩ := hviolation
    exact ⟨by simpa using hbroken, passed, rest, horder, by simpa using hpassed⟩

/-! ### A configuration that is checked -/

lemma runOn_validated (config : Config) (host : Host) :
    config.validated.runOn host =
      (match config.violation? with
        | some violation => .error (.reported violation.problem)
        | none => .ok (config.normalizePaths ⟨host.home, Disk.workingDirectory host.here⟩), host) := by
  have hrun : config.validated.runOn host =
      (Program.ofResult Violation.problem
        (config.validate ⟨host.home, Disk.workingDirectory host.here⟩)).runOn host := rfl
  rw [hrun, validate]
  cases config.violation? <;> rfl

/-- **Checking a configuration** settles it. In a working directory that has a path, whatever the home directory
is, a configuration is refused as wrong input for the first rule that it breaks, or it breaks none and is given
back with both paths absolute and in normal form and all else as it was. A path that was given is the one it
stands for in the working directory; an output directory that was not given lies below the root. Checking the
result again, on whatever host and in whatever directory, gives the same result. -/
theorem validated_settled (config : Config) (hhere : host.here = .inside key) :
    (∃ violation : Violation, config.FirstBroken violation ∧ violation.problem.category = .input ∧
      config.validated.runOn host = (.error (.reported violation.problem), host)) ∨
    (∀ violation : Violation, ¬ violation.IsBroken config) ∧
      ∃ valid : Config, config.validated.runOn host = (.ok valid, host) ∧
        (valid.root.isAbsolute = true ∧ valid.root.IsNormal) ∧
        (valid.outDir.isAbsolute = true ∧ valid.outDir.IsNormal) ∧
        { valid with root := config.root, outDir := config.outDir } = config ∧
        (config.root.isEmpty = false →
          valid.root = (Path.absoluteFrom (Disk.pathOf key) config.root).normalized) ∧
        (config.outDir.isEmpty = false →
          valid.outDir = (Path.absoluteFrom (Disk.pathOf key) config.outDir).normalized) ∧
        (config.outDir.isEmpty = true → valid.outDir = (defaultOutDir valid.root).normalized) ∧
        ∀ later : Host, valid.validated.runOn later = (.ok valid, later) := by
  have hspec := config.violation?_spec
  have hrun := runOn_validated config host
  rcases hviolation : config.violation? with _ | violation
  · rw [hviolation] at hspec hrun
    obtain ⟨settings, hsettings⟩ : ∃ settings : Environment,
        settings = ⟨host.home, Disk.workingDirectory host.here⟩ := ⟨_, rfl⟩
    have hworking : settings.workingDirectory = .ok (Disk.pathOf key) := by rw [hsettings, hhere]; rfl
    have habsolute := Disk.isAbsolute_pathOf key
    have hroot := isNormal_normalizePaths_root hworking habsolute config
    have hout := isNormal_normalizePaths_outDir hworking habsolute config
    rw [← hsettings] at hrun
    refine Or.inr ⟨hspec, _, hrun, ⟨hroot.isAbsolute, hroot⟩, ⟨hout.isAbsolute, hout⟩, rfl,
      normalizePaths_root hworking, normalizePaths_outDir hworking,
      normalizePaths_outDir_default hworking habsolute, fun later => ?_⟩
    -- No rule is about a path, so none is broken by normalising them.
    have hkept : (config.normalizePaths settings).violation? = none := hviolation
    rw [runOn_validated, hkept, normalizePaths_of_isNormal hroot hout]
  · rw [hviolation] at hspec hrun
    exact Or.inl ⟨violation, hspec, by cases violation <;> rfl, hrun⟩

/-- A relative root with dots in it, from a directory with a space in its name. -/
theorem validated_settled_relative :
    let config : Config := { root := .ofString "../b//./c/" }
    let host : Host := { here := .inside [utf8 "a a"], home := some (utf8 "~") }
    host.here = .inside [utf8 "a a"] ∧
      ∃ valid : Config, config.validated.runOn host = (.ok valid, host) ∧
        valid.root = .ofString "/b/c/" ∧ valid.outDir = .ofString "/b/c/orynq/recorder" ∧
        ∀ later : Host, valid.validated.runOn later = (.ok valid, later) := by
  intro config host
  have hhere : host.here = .inside [utf8 "a a"] := rfl
  have hdone : (config.validated.runOn host).1.toOption.isSome = true := by decide +kernel
  rcases validated_settled config hhere with
    ⟨violation, -, -, hrun⟩ | ⟨-, valid, hrun, -, -, -, hroot, -, hout, hagain⟩
  · rw [hrun] at hdone
    cases hdone
  · have hplace : valid.root = .ofString "/b/c/" := (hroot rfl).trans (by decide +kernel)
    have hbelow := hout rfl
    rw [hplace] at hbelow
    exact ⟨hhere, valid, hrun, hplace, hbelow.trans (by decide +kernel), hagain⟩

end Config

end Chronicle
