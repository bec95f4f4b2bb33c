import Chronicle.Proofs.Command.Verified
import Chronicle.Proofs.Storage.Unreadable

/-!
The language of the command line, and what a command line means.

Behind the command stand groups: `--verbose` by itself, or a flag with the word behind it as its value. What does
not consist of groups is refused for the first word that begins none, before anything is asked about a path. What
does is worth the last value of each flag and whether `--verbose` occurs; the values are checked against the disk
one after the other, and the first one that does not pass is reported.
-/

namespace Chronicle.Command

variable {action : Action} {flag : Flag} {value : Bytes} {rest : List Bytes} {host : Host}

/-! ### Groups of words -/

/-- What the words behind a command consist of. -/
inductive Group
  | verbose
  | valued (flag : Flag) (value : Bytes)
  deriving DecidableEq, Repr

namespace Group

def words : Group → List Bytes
  | verbose => [utf8 "--verbose"]
  | valued flag value => [flag.text, value]

def flag? : Group → Option Flag
  | verbose => none
  | valued flag _ => some flag

/-- The value that a group gives a flag. -/
def valueOf? (flag : Flag) : Group → Option Bytes
  | verbose => none
  | valued other value => if other = flag then some value else none

/-- What a group adds to the options in front of it. -/
def addTo (options : Options) : Group → Options
  | verbose => { options with verbose := true }
  | valued flag value => options.set value flag

end Group

variable {groups groups' : List Group} {options : Options}

def wordsOf (groups : List Group) : List Bytes := groups.flatMap Group.words

/-- Words that begin no group, and why they are refused. -/
inductive Offence : List Bytes → Problem → Prop
  | unknown {word : Bytes} {rest : List Bytes} (hverbose : word ≠ utf8 "--verbose")
      (hflag : ∀ flag : Flag, word ≠ flag.text) :
      Offence (word :: rest)
        { category := .input, message := utf8 "Unknown argument: " ++ word
          code := utf8 "unknown_argument", hint := usage }
  | missing (flag : Flag) :
      Offence [flag.text]
        { category := .input, message := utf8 "Missing value for " ++ flag.text
          code := utf8 "missing_value" }

lemma ofText?_text (flag : Flag) : Flag.ofText? flag.text = some flag := by
  cases flag <;> decide

lemma text_ne_verbose (flag : Flag) : flag.text ≠ verboseFlag := by
  cases flag <;> decide

lemma ofText?_eq_none {word : Bytes} (h : ∀ flag : Flag, word ≠ flag.text) : Flag.ofText? word = none := by
  rw [Flag.ofText?, List.find?_eq_none]
  intro flag _ heq
  exact h flag (beq_iff_eq.mp heq).symm

/-- Words are groups, or groups and then words that begin none. -/
lemma exists_groups : ∀ words : List Bytes, (∃ groups, words = wordsOf groups) ∨
    ∃ groups rest problem, words = wordsOf groups ++ rest ∧ Offence rest problem
  | [] => Or.inl ⟨[], rfl⟩
  | word :: rest => by
    by_cases hverbose : word = utf8 "--verbose"
    · rcases exists_groups rest with ⟨groups, rfl⟩ | ⟨groups, behind, problem, rfl, hoffence⟩
      · exact Or.inl ⟨.verbose :: groups, by rw [hverbose]; rfl⟩
      · exact Or.inr ⟨.verbose :: groups, behind, problem, by rw [hverbose]; rfl, hoffence⟩
    by_cases hflag : ∃ flag : Flag, word = flag.text
    · obtain ⟨flag, rfl⟩ := hflag
      cases rest with
      | nil => exact Or.inr ⟨[], _, _, rfl, .missing flag⟩
      | cons value rest =>
        rcases exists_groups rest with ⟨groups, rfl⟩ | ⟨groups, behind, problem, rfl, hoffence⟩
        · exact Or.inl ⟨.valued flag value :: groups, rfl⟩
        · exact Or.inr ⟨.valued flag value :: groups, behind, problem, rfl, hoffence⟩
    · exact Or.inr ⟨[], _, _, rfl, .unknown hverbose fun flag heq => hflag ⟨flag, heq⟩⟩

/-! ### Reading groups -/

lemma readOptions_group (group : Group) (rest : List Bytes) (options : Options) :
    readOptions (group.words ++ rest) options = readOptions rest (group.addTo options) := by
  cases group with
  | verbose => cases rest <;> rfl
  | valued flag value =>
    have hverbose := text_ne_verbose flag
    rw [Group.words, List.cons_append, List.singleton_append, readOptions, if_neg hverbose, ofText?_text]
    rfl

lemma readOptions_wordsOf (groups : List Group) (rest : List Bytes) (options : Options) :
    readOptions (wordsOf groups ++ rest) options = readOptions rest (groups.foldl Group.addTo options) := by
  induction groups generalizing options with
  | nil => rfl
  | cons group groups ih =>
    rw [wordsOf, List.flatMap_cons, List.append_assoc, readOptions_group, List.foldl_cons]
    exact ih _

lemma Offence.readOptions {problem : Problem} (h : Offence rest problem) (options : Options) :
    ∃ fault : ArgumentFault, readOptions rest options = .error fault ∧ fault.problem = problem := by
  cases h with
  | @unknown word rest hverbose hflag =>
    have hnone := ofText?_eq_none hflag
    have hverbose' : word ≠ verboseFlag := hverbose
    refine ⟨.unknownArgument word, ?_, rfl⟩
    cases rest <;> rw [Command.readOptions, if_neg hverbose', hnone]
  | missing flag =>
    have hverbose := text_ne_verbose flag
    refine ⟨.missingValue flag, ?_, rfl⟩
    rw [Command.readOptions, if_neg hverbose, ofText?_text]

lemma ofName?_name (action : Action) : Action.ofName? action.name = some action := by
  cases action <;> decide

/-- Groups are accepted, and only then is anything asked. -/
lemma parse_wordsOf (action : Action) (groups : List Group) :
    parse (action.name :: wordsOf groups) = checkPaths action (groups.foldl Group.addTo {}) := by
  have hread := readOptions_wordsOf groups [] {}
  rw [List.append_nil, readOptions] at hread
  rw [parse, readWords, ofName?_name]
  dsimp only
  rw [hread]
  rfl

lemma parse_offence {problem : Problem} (action : Action) (groups : List Group) (h : Offence rest problem) :
    parse (action.name :: (wordsOf groups ++ rest)) = .report problem := by
  obtain ⟨fault, hfault, rfl⟩ := h.readOptions (groups.foldl Group.addTo {})
  rw [parse, readWords, ofName?_name]
  dsimp only
  rw [readOptions_wordsOf, hfault]
  rfl

/-! ### What groups say -/

/-- What the words behind a command say: whether `--verbose` is among them, and the value that each flag has. -/
structure Given where
  verbose : Bool
  value? : Flag → Option Bytes

/-- The last value that groups give a flag. -/
def lastValue? (groups : List Group) (flag : Flag) : Option Bytes :=
  (groups.filterMap (Group.valueOf? flag)).getLast?

def given (groups : List Group) : Given := ⟨decide (Group.verbose ∈ groups), lastValue? groups⟩

/-- The value of a flag among options. -/
def Options.value? (options : Options) : Flag → Option Bytes
  | .config => options.config
  | .root => options.root
  | .outDir => options.outDir
  | .manifest => options.manifest

lemma lastValue?_cons (group : Group) (groups : List Group) (flag : Flag) :
    lastValue? (group :: groups) flag = (lastValue? groups flag).or (group.valueOf? flag) := by
  unfold lastValue?
  cases hvalue : group.valueOf? flag with
  | none => rw [List.filterMap_cons_none hvalue, Option.or_none]
  | some value =>
    rw [List.filterMap_cons_some hvalue, List.getLast?_cons]
    cases (groups.filterMap (Group.valueOf? flag)).getLast? <;> rfl

lemma value?_addTo (group : Group) (options : Options) (flag : Flag) :
    (group.addTo options).value? flag = (group.valueOf? flag).or (options.value? flag) := by
  cases group with
  | verbose => cases flag <;> rfl
  | valued other value => cases other <;> cases flag <;> rfl

lemma value?_gathered (groups : List Group) (options : Options) (flag : Flag) :
    (groups.foldl Group.addTo options).value? flag = (lastValue? groups flag).or (options.value? flag) := by
  induction groups generalizing options with
  | nil => rfl
  | cons group groups ih => rw [List.foldl_cons, ih, value?_addTo, lastValue?_cons, Option.or_assoc]

lemma verbose_gathered (groups : List Group) (options : Options) :
    (groups.foldl Group.addTo options).verbose = (decide (Group.verbose ∈ groups) || options.verbose) := by
  induction groups generalizing options with
  | nil => rfl
  | cons group groups ih =>
    rw [List.foldl_cons, ih]
    cases group with
    | verbose => simp [Group.addTo]
    | valued flag value =>
      have hsame : (options.set value flag).verbose = options.verbose := by cases flag <;> rfl
      simp [Group.addTo, hsame]

lemma gathered_eq (groups : List Group) :
    groups.foldl Group.addTo {} =
      ⟨(given groups).value? .config, (given groups).value? .root, (given groups).value? .outDir,
        (given groups).value? .manifest, (given groups).verbose⟩ := by
  have hvalue : ∀ flag, (groups.foldl Group.addTo {}).value? flag = (given groups).value? flag := by
    intro flag
    have hnone : ({} : Options).value? flag = none := by cases flag <;> rfl
    rw [value?_gathered, hnone, Option.or_none]
    rfl
  have hverbose : (groups.foldl Group.addTo {}).verbose = (given groups).verbose := by
    rw [verbose_gathered, Bool.or_false]
    rfl
  rw [← hvalue, ← hvalue, ← hvalue, ← hvalue, ← hverbose]
  rfl

lemma lastValue?_eq_none (h : ∀ value, Group.valued flag value ∉ groups) : lastValue? groups flag = none := by
  rw [lastValue?, List.getLast?_eq_none_iff, List.filterMap_eq_nil_iff]
  intro group hmem
  cases group with
  | verbose => rfl
  | valued other value => exact if_neg fun heq : other = flag => h value (heq ▸ hmem)

/-- Flags of which each is given once have the value they are given, wherever it stands. -/
lemma lastValue?_eq_some_iff (hdistinct : (groups.filterMap Group.flag?).Nodup) :
    lastValue? groups flag = some value ↔ Group.valued flag value ∈ groups := by
  induction groups with
  | nil => simp [lastValue?]
  | cons group groups ih =>
    rw [lastValue?_cons, List.mem_cons]
    cases group with
    | verbose =>
      rw [List.filterMap_cons_none rfl] at hdistinct
      simp [Group.valueOf?, ih hdistinct]
    | valued other given =>
      have hgiven : (Group.valued other given).flag? = some other := rfl
      rw [List.filterMap_cons_some hgiven, List.nodup_cons] at hdistinct
      obtain ⟨hother, hrest⟩ := hdistinct
      by_cases hflag : other = flag
      · -- The flag is not given behind.
        subst hflag
        have hnever : ∀ later, Group.valued other later ∉ groups := fun later hmem =>
          hother (List.mem_filterMap.mpr ⟨_, hmem, rfl⟩)
        have hnone : lastValue? groups other = none := lastValue?_eq_none hnever
        simp [hnone, hnever, Group.valueOf?, eq_comm]
      · have hne : ¬ flag = other := fun heq => hflag heq.symm
        simp [Group.valueOf?, hflag, hne, ih hrest]

lemma given_eq_of_perm (hperm : groups.Perm groups') (hdistinct : (groups.filterMap Group.flag?).Nodup) :
    given groups = given groups' := by
  have hdistinct' : (groups'.filterMap Group.flag?).Nodup := (hperm.filterMap _).nodup_iff.mp hdistinct
  have hvalues : lastValue? groups = lastValue? groups' := by
    funext flag
    refine Option.ext fun value => ?_
    rw [lastValue?_eq_some_iff hdistinct, lastValue?_eq_some_iff hdistinct', hperm.mem_iff]
  rw [given, given, hvalues, decide_eq_decide.mpr hperm.mem_iff]

/-- A value that a flag is given once more behind does not count. -/
lemma given_eq_of_repeated {front back : List Group} (hlater : ∃ later, Group.valued flag later ∈ back) :
    given (front ++ .valued flag value :: back) = given (front ++ back) := by
  have hvalues : lastValue? (front ++ .valued flag value :: back) = lastValue? (front ++ back) := by
    funext other
    unfold lastValue?
    by_cases hflag : flag = other
    · subst hflag
      obtain ⟨later, hmem⟩ := hlater
      have hback : back.filterMap (Group.valueOf? flag) ≠ [] :=
        List.ne_nil_of_mem (List.mem_filterMap.mpr ⟨_, hmem, if_pos rfl⟩)
      have hvalue : (Group.valued flag value).valueOf? flag = some value := if_pos rfl
      rw [List.filterMap_append, List.filterMap_append, List.filterMap_cons_some hvalue,
        List.getLast?_append_cons, List.getLast?_cons_of_ne_nil hback, List.getLast?_append_of_ne_nil _ hback]
    · have hnone : (Group.valued flag value).valueOf? other = none := if_neg hflag
      rw [List.filterMap_append, List.filterMap_append, List.filterMap_cons_none hnone]
  rw [given, given, hvalues]
  simp

/-! ### What is asked of the disk -/

/-- The canonical path of a value, if there is something of a kind there. -/
def existing (host : Host) (value : Bytes) (kind : Disk.Kind) (wrongKind noPath : ArgumentFault) :
    Except ArgumentFault Path :=
  match host.disk.status host.here ⟨value⟩ with
  | .ok status =>
    if status.kind = kind then
      match host.disk.canonical host.here ⟨value⟩ with
      | .ok path => .ok path
      | .error _ => .error noPath
    else .error wrongKind
  | .error _ => .error wrongKind

/-- Whether a value is accepted for a flag, and the path it stands for. A file or directory has to be there as such;
an output directory need not be there. -/
def Flag.verdict (host : Host) (flag : Flag) (value : Bytes) : Except ArgumentFault Path :=
  match flag with
  | .config | .manifest => existing host value .regular (.notFile flag value) (.notCanonical flag value)
  | .root => existing host value .directory (.notDirectory flag value) (.notCanonical flag value)
  | .outDir =>
    if value = [] then .error .emptyOutDir
    else if (Path.mk value).isAbsolute then .ok ⟨value⟩
    else match Disk.workingDirectory host.here with
      | .ok directory => .ok (directory.join value)
      | .error _ => .error (.unresolvedOutDir value)

/-- The flags in the order in which their values are checked. -/
def Flag.inOrder : List Flag := [config, root, manifest, outDir]

namespace Given

variable (given : Given) (host : Host)

def verdict? (flag : Flag) : Option (Except ArgumentFault Path) := (given.value? flag).map (flag.verdict host)

def fault? (flag : Flag) : Option ArgumentFault :=
  match given.verdict? host flag with
  | some (.error fault) => some fault
  | _ => none

def path? (flag : Flag) : Option Path :=
  match given.verdict? host flag with
  | some (.ok path) => some path
  | _ => none

/-- What is reported: a manifest where none is checked, or the first value that does not pass. -/
def firstFault? (action : Action) : Option ArgumentFault :=
  if (given.value? .manifest).isSome ∧ action ≠ .verify then some .strayManifest
  else Flag.inOrder.findSome? (given.fault? host)

/-- What is asked for if nothing is reported. -/
def invocation (action : Action) : Invocation where
  action := action
  configFile := given.path? host .config
  root := given.path? host .root
  outDir := given.path? host .outDir
  manifestFile := given.path? host .manifest
  verbose := given.verbose

end Given

/-! ### Checking the values -/

/-- A verdict as the result of a program. -/
def answered {α : Type} (verdict : Except ArgumentFault α) : Except Failure α :=
  verdict.mapError fun fault => .reported fault.problem

lemma runOn_existingFile (flag : Flag) (value : Bytes) (host : Host) :
    (existingFile flag value).runOn host =
      (answered (existing host value .regular (.notFile flag value) (.notCanonical flag value)), host) := by
  rw [existingFile, Program.runOn_bind, runOn_isRegularFile, existing]
  rcases host.disk.status host.here ⟨value⟩ with reason | ⟨kind, size⟩
  · rfl
  by_cases hkind : kind = .regular
  · simp only [hkind, decide_true, if_true, runOn_canonicalPath]
    cases host.disk.canonical host.here ⟨value⟩ <;> rfl
  · simp only [hkind, decide_false, Bool.false_eq_true, if_false]
    rfl

lemma runOn_existingDirectory (flag : Flag) (value : Bytes) (host : Host) :
    (existingDirectory flag value).runOn host =
      (answered (existing host value .directory (.notDirectory flag value) (.notCanonical flag value)), host) := by
  rw [existingDirectory, Program.runOn_bind, Storage.runOn_isDirectory, existing]
  rcases host.disk.status host.here ⟨value⟩ with reason | ⟨kind, size⟩
  · rfl
  by_cases hkind : kind = .directory
  · simp only [hkind, decide_true, if_true, runOn_canonicalPath]
    cases host.disk.canonical host.here ⟨value⟩ <;> rfl
  · simp only [hkind, decide_false, Bool.false_eq_true, if_false]
    rfl

lemma runOn_outputDirectory (value : Bytes) (host : Host) :
    (outputDirectory value).runOn host = (answered (Flag.verdict host .outDir value), host) := by
  unfold outputDirectory Flag.verdict Storage.absolute
  by_cases hempty : value = []
  · rw [hempty]
    rfl
  have hgiven : value.isEmpty = false := by rwa [List.isEmpty_eq_false_iff]
  have hpath : (Path.mk value).isEmpty = false := hgiven
  by_cases habsolute : (Path.mk value).isAbsolute = true
  · simp only [hempty, hgiven, hpath, habsolute, Bool.false_eq_true, if_false, if_true]
    rfl
  · simp only [hempty, hgiven, hpath, habsolute, Bool.false_eq_true, if_false]
    rw [bind_assoc, Program.runOn_request_bind, Host.answer]
    dsimp only
    cases Disk.workingDirectory host.here <;> rfl

/-- The check of the value of a flag. -/
def Flag.check : Flag → Bytes → Program Path
  | .config => existingFile .config
  | .root => existingDirectory .root
  | .outDir => outputDirectory
  | .manifest => existingFile .manifest

lemma runOn_check (flag : Flag) (value : Bytes) (host : Host) :
    (flag.check value).runOn host = (answered (flag.verdict host value), host) := by
  cases flag with
  | config => exact runOn_existingFile .config value host
  | root => exact runOn_existingDirectory .root value host
  | outDir => exact runOn_outputDirectory value host
  | manifest => exact runOn_existingFile .manifest value host

lemma runOn_given_bind {α : Type} (given : Given) (flag : Flag) (next : Option Path → Program α) (host : Host) :
    (optionally flag.check (given.value? flag) >>= next).runOn host =
      match given.fault? host flag with
      | some fault => (.error (.reported fault.problem), host)
      | none => (next (given.path? host flag)).runOn host := by
  unfold Given.fault? Given.path? Given.verdict?
  rw [Program.runOn_bind]
  cases given.value? flag with
  | none => rfl
  | some value =>
    rw [optionally, Program.runOn_bind, runOn_check]
    cases hverdict : flag.verdict host value <;> simp only [Option.map_some, hverdict] <;> rfl

/-- **The checks** end with the first value that does not pass, or with what is asked for. -/
theorem runOn_checkPaths (action : Action) (given : Given) (host : Host) :
    (checkPaths action ⟨given.value? .config, given.value? .root, given.value? .outDir, given.value? .manifest,
        given.verbose⟩).runOn host =
      (match given.firstFault? host action with
        | some fault => .error (.reported fault.problem)
        | none => .ok (given.invocation host action), host) := by
  have hchecks : checkPaths action ⟨given.value? .config, given.value? .root, given.value? .outDir,
      given.value? .manifest, given.verbose⟩ =
      if (given.value? .manifest).isSome && decide (action ≠ .verify) then refuse .strayManifest
      else optionally (Flag.check .config) (given.value? .config) >>= fun configFile =>
        optionally (Flag.check .root) (given.value? .root) >>= fun root =>
        optionally (Flag.check .manifest) (given.value? .manifest) >>= fun manifestFile =>
        optionally (Flag.check .outDir) (given.value? .outDir) >>= fun outDir =>
        .done ⟨action, configFile, root, outDir, manifestFile, given.verbose⟩ := rfl
  rw [hchecks, Given.firstFault?]
  by_cases hstray : (given.value? .manifest).isSome ∧ action ≠ .verify
  · rw [if_pos hstray, if_pos (by simpa using hstray)]
    rfl
  rw [if_neg hstray, if_neg (by simpa using hstray)]
  -- The values are checked in turn; the first one that does not pass ends the run.
  simp only [runOn_given_bind, Flag.inOrder, List.findSome?]
  cases given.fault? host .config with
  | some fault => rfl
  | none =>
    cases given.fault? host .root with
    | some fault => rfl
    | none =>
      cases given.fault? host .manifest with
      | some fault => rfl
      | none => cases given.fault? host .outDir <;> rfl

/-! ### Command lines -/

/-- **The command line** has a grammar and a meaning. For every command and all words behind it:

The words are accepted if and only if they are a sequence of groups. Otherwise they are groups and then words that
begin none, and the first of these is reported as unknown, or as a flag without its value, without any question
about a path.

What groups ask for is told by the command, by whether `--verbose` occurs and by the last value of each flag: it is
the first fault, in the order of a stray manifest, the configuration, the root, the manifest and the output
directory, or else the request with the paths that the values stand for. So groups that say the same are worth the
same; groups of which no two have one flag can be put in any order, and a value that a flag is given again behind
can be left out. -/
theorem parse_grammar (action : Action) :
    (∀ words : List Bytes,
      ((∃ options, readWords (action.name :: words) = .ok (action, options)) ↔ ∃ groups, words = wordsOf groups) ∧
      ((¬ ∃ groups, words = wordsOf groups) →
        ∃ groups rest problem, words = wordsOf groups ++ rest ∧ Offence rest problem)) ∧
    (∀ groups rest problem, Offence rest problem →
      parse (action.name :: (wordsOf groups ++ rest)) = .report problem) ∧
    (∀ groups host, (parse (action.name :: wordsOf groups)).runOn host =
      (match (given groups).firstFault? host action with
        | some fault => .error (.reported fault.problem)
        | none => .ok ((given groups).invocation host action), host)) ∧
    (∀ groups groups', (Group.verbose ∈ groups ↔ Group.verbose ∈ groups') →
      (∀ flag, lastValue? groups flag = lastValue? groups' flag) →
      parse (action.name :: wordsOf groups) = parse (action.name :: wordsOf groups')) ∧
    (∀ groups groups', groups.Perm groups' → (groups.filterMap Group.flag?).Nodup →
      parse (action.name :: wordsOf groups) = parse (action.name :: wordsOf groups')) ∧
    (∀ front flag value later back, Group.valued flag later ∈ back →
      parse (action.name :: wordsOf (front ++ .valued flag value :: back)) =
        parse (action.name :: wordsOf (front ++ back))) := by
  -- The order and the repetitions of groups are lost in what they say.
  have hsame : ∀ groups groups', given groups = given groups' →
      parse (action.name :: wordsOf groups) = parse (action.name :: wordsOf groups') := by
    intro groups groups' heq
    rw [parse_wordsOf, parse_wordsOf, gathered_eq, gathered_eq, heq]
  refine ⟨fun words => ⟨⟨fun ⟨options, hread⟩ => ?_, ?_⟩, fun hnone => (exists_groups words).resolve_left hnone⟩,
    fun groups rest problem hoffence => parse_offence action groups hoffence, fun groups host => ?_,
    fun groups groups' hverbose hvalues => hsame _ _ ?_,
    fun groups groups' hperm hdistinct => hsame _ _ (given_eq_of_perm hperm hdistinct),
    fun front flag value later back hlater => hsame _ _ (given_eq_of_repeated ⟨later, hlater⟩)⟩
  · refine (exists_groups words).resolve_right ?_
    rintro ⟨groups, rest, problem, rfl, hoffence⟩
    obtain ⟨fault, hfault, -⟩ := hoffence.readOptions (groups.foldl Group.addTo {})
    rw [readWords, ofName?_name] at hread
    dsimp only at hread
    rw [readOptions_wordsOf, hfault] at hread
    cases hread
  · rintro ⟨groups, rfl⟩
    have hread := readOptions_wordsOf groups [] {}
    rw [List.append_nil, readOptions] at hread
    rw [readWords, ofName?_name]
    dsimp only
    rw [hread]
    exact ⟨_, rfl⟩
  · rw [parse_wordsOf, gathered_eq, runOn_checkPaths]
  · rw [given, given, funext hvalues, decide_eq_decide.mpr hverbose]

/-- A value that looks like a flag, a flag that is given twice, and a flag without a value. -/
theorem parse_grammar_scan :
    parse (["scan", "--root", "--verbose", "--verbose", "--root", "r"].map utf8) =
        parse (["scan", "--verbose", "--root", "r"].map utf8) ∧
      parse (["scan", "--out-dir", "--root", "--config"].map utf8) =
        .report { category := .input, message := utf8 "Missing value for --config", code := utf8 "missing_value" } := by
  obtain ⟨-, hrefused, -, hsame, -⟩ := parse_grammar .scan
  refine ⟨hsame [.valued .root (utf8 "--verbose"), .verbose, .valued .root (utf8 "r")]
    [.verbose, .valued .root (utf8 "r")] (by decide) fun flag => by cases flag <;> rfl, ?_⟩
  exact hrefused [.valued .outDir (utf8 "--root")] [utf8 "--config"] _ (.missing .config)

end Chronicle.Command
