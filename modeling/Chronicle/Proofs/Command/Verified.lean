import Chronicle.Command.Run
import Chronicle.Proofs.Artifact.Files
import Chronicle.Proofs.Disk.Absolute
import Chronicle.Proofs.System.Undisturbed

/-!
Which manifest is checked.

A command line can name a manifest file. The path is made absolute, the identifier of the bundle is taken from
its last name, and the artifacts of the bundle are looked for below the directory two levels up, where a
manifest is expected in a directory called manifests. So the file that is checked is the one that was named
only if it lies in a directory of this name.
-/

namespace Chronicle

open Disk

/-! ### Requests that leave the host as it is -/

/-- A request about a path, or about the working directory, which changes nothing. -/
def Request.Quiet : Request → Prop
  | .status _ | .canonical _ | .workingDirectory => True
  | _ => False

lemma Program.Only.runOn_quiet {α : Type} {program : Program α} (h : program.Only Request.Quiet)
    {host after : Host} {result : Except Failure α} (hrun : program.runOn host = (result, after)) :
    after = host := by
  induction h with
  | done value => exact (congrArg Prod.snd hrun).symm
  | fail failure => exact (congrArg Prod.snd hrun).symm
  | @ask request go hrequest _ ih =>
    cases request with
    | status path => exact ih _ hrun
    | canonical path => exact ih _ hrun
    | workingDirectory => exact ih _ hrun
    | _ => exact hrequest.elim

lemma Program.reads_prefix_bind {α β : Type} (program : Program α) (next : α → Program β) (host : Host) :
    program.reads host <+: (program >>= next).reads host := by
  induction program generalizing host with
  | done value => exact List.nil_prefix
  | fail failure => exact List.nil_prefix
  | ask request go ih => exact (List.prefix_append_right_inj _).mpr (ih _ _)

namespace Command

variable {host after : Host} {flag : Flag} {value id : Bytes} {path file : Path} {words : List Bytes}
  {action : Action} {options : Options} {request : Invocation}

/-! ### The command line -/

lemma canonicalPath_quiet (flag : Flag) (value : Bytes) : (canonicalPath flag value).Only Request.Quiet := by
  refine .ask trivial fun canonical => ?_
  cases canonical
  · exact .fail _
  · exact .done _

lemma existingFile_quiet (flag : Flag) (value : Bytes) : (existingFile flag value).Only Request.Quiet := by
  refine Program.Only.bind (.ask trivial fun status => ?_) fun regular => ?_
  · cases status <;> exact .done _
  · cases regular
    · exact .fail _
    · exact canonicalPath_quiet flag value

lemma existingDirectory_quiet (flag : Flag) (value : Bytes) :
    (existingDirectory flag value).Only Request.Quiet := by
  refine Program.Only.bind (.ask trivial fun status => ?_) fun directory => ?_
  · cases status <;> exact .done _
  · cases directory
    · exact .fail _
    · exact canonicalPath_quiet flag value

lemma optionally_quiet {check : Bytes → Program Path} (hcheck : ∀ value, (check value).Only Request.Quiet)
    (value? : Option Bytes) : (optionally check value?).Only Request.Quiet := by
  cases value? with
  | none => exact .done _
  | some value => exact (hcheck value).bind fun path => .done _

lemma runOn_isRegularFile (host : Host) (path : Path) :
    (Storage.isRegularFile path).runOn host =
      (.ok (match host.disk.status host.here path with
        | .ok status => decide (status.kind = .regular)
        | .error _ => false), host) := by
  rw [Storage.isRegularFile, Program.runOn_request_bind, Host.answer]
  dsimp only
  cases host.disk.status host.here path <;> rfl

lemma runOn_canonicalPath (flag : Flag) (value : Bytes) (host : Host) :
    (canonicalPath flag value).runOn host =
      (match host.disk.canonical host.here ⟨value⟩ with
        | .ok canonical => .ok canonical
        | .error _ => .error (.reported (ArgumentFault.notCanonical flag value).problem), host) := by
  rw [canonicalPath, Program.runOn_request_bind, Host.answer]
  dsimp only
  cases host.disk.canonical host.here ⟨value⟩ <;> rfl

/-- A file that is accepted is a regular one, and its path is the canonical one. -/
lemma existingFile_done (h : (existingFile flag value).runOn host = (.ok file, after)) :
    (∃ size, host.disk.status host.here ⟨value⟩ = .ok ⟨.regular, size⟩) ∧
      host.disk.canonical host.here ⟨value⟩ = .ok file := by
  rw [existingFile, Program.runOn_bind, runOn_isRegularFile] at h
  rcases hstatus : host.disk.status host.here ⟨value⟩ with reason | ⟨kind, size⟩
  · rw [hstatus] at h
    cases h
  by_cases hregular : kind = .regular
  · subst hregular
    refine ⟨⟨size, rfl⟩, ?_⟩
    rw [hstatus] at h
    dsimp only at h
    rw [decide_eq_true rfl, if_pos rfl, runOn_canonicalPath] at h
    rcases hcanonical : host.disk.canonical host.here ⟨value⟩ with reason | canonical
    · rw [hcanonical] at h
      cases h
    · rw [hcanonical] at h
      cases h
      rfl
  · rw [hstatus] at h
    dsimp only at h
    rw [decide_eq_false hregular] at h
    cases h

/-- The canonical path of a regular file is that of its entry. -/
lemma file_of_canonical {disk : Disk} {here : Standing} {size : Nat}
    (hstatus : disk.status here path = .ok ⟨.regular, size⟩) (hcanonical : disk.canonical here path = .ok file) :
    ∃ key content, file = pathOf key ∧ disk.find? key = some (.file content) := by
  unfold Disk.status at hstatus
  rcases hresolve : disk.resolve here true path with reason | place
  · rw [hresolve] at hstatus
    cases hstatus
  rw [hresolve] at hstatus
  cases place with
  | absent key trailing => cases hstatus
  | present place entry =>
    have hthere : disk.standingEntry place = some entry := resolve_isOn hresolve
    cases entry with
    | file content =>
      cases place with
      | detached parent => cases hthere
      | inside key =>
        refine ⟨key, content, ?_, hthere⟩
        unfold canonical at hcanonical
        rw [hresolve] at hcanonical
        by_cases habsolute : path.isAbsolute = true
        · simpa [habsolute, bind, Except.bind, pure, Except.pure, eq_comm] using hcanonical
        · rcases hworking : workingDirectory here with reason | directory
          · simp [habsolute, hworking, bind, Except.bind] at hcanonical
          · simpa [habsolute, hworking, bind, Except.bind, pure, Except.pure, eq_comm] using hcanonical
    | directory => cases hstatus
    | link target => cases hstatus
    | fullDevice => cases hstatus

/-- **A manifest on the command line** is given for verifying only, and is the path of a regular file. -/
theorem parse_manifest (h : (parse words).runOn host = (.ok request, after))
    (hfile : request.manifestFile = some file) :
    request.action = .verify ∧ ∃ key content, file = pathOf key ∧ host.disk.find? key = some (.file content) := by
  obtain ⟨⟨action, options⟩, between, hwords, hcheck⟩ := Program.runOn_bind_ok h
  obtain rfl : between = host := by
    rcases hread : readWords words with fault | read
    · rw [hread] at hwords
      cases hwords
    · rw [hread] at hwords
      exact (congrArg Prod.snd hwords).symm
  dsimp only [checkPaths] at hcheck
  split at hcheck
  · cases hcheck
  next haction =>
  obtain ⟨configFile, afterConfig, hconfig, hrest⟩ := Program.runOn_bind_ok hcheck
  obtain rfl := (optionally_quiet (existingFile_quiet .config) options.config).runOn_quiet hconfig
  obtain ⟨root, afterRoot, hroot, hrest'⟩ := Program.runOn_bind_ok hrest
  obtain rfl := (optionally_quiet (existingDirectory_quiet .root) options.root).runOn_quiet hroot
  obtain ⟨manifestFile, afterManifest, hmanifest, hrest''⟩ := Program.runOn_bind_ok hrest'
  obtain ⟨outDir, last, -, hdone⟩ := Program.runOn_bind_ok hrest''
  cases hdone
  obtain rfl : manifestFile = some file := hfile
  rcases hvalue : options.manifest with _ | value
  · rw [hvalue] at hmanifest
    cases hmanifest
  · rw [hvalue] at hmanifest haction
    refine ⟨by simpa using haction, ?_⟩
    obtain ⟨found, _, hexisting, hfound⟩ := Program.runOn_bind_ok hmanifest
    cases hfound
    obtain ⟨⟨size, hstatus⟩, hcanonical⟩ := existingFile_done hexisting
    exact file_of_canonical hstatus hcanonical

/-! ### The file that is opened -/

lemma fileName_of_bundleIdOf (h : Artifact.bundleIdOf file = .ok id) :
    file.fileName = id ++ Artifact.manifestSuffix :=
  (Artifact.bundleIdOf_eq_iff.mp h).2

lemma reads_load (husable : Artifact.isUsable id = true) (store : Artifact.Store) (host : Host) :
    [store.manifestFile id] <+: (store.load id).reads host := by
  rw [Artifact.Store.load, Artifact.check_eq husable, Program.done_bind]
  exact (List.prefix_append _ _).trans (Program.reads_prefix_bind (Storage.contentOf _) _ host)

lemma reads_perform (haction : request.action = .verify) (hfile : request.manifestFile = some file)
    (hid : Artifact.bundleIdOf file = .ok id) (husable : Artifact.isUsable id = true) (cycles : Nat)
    (config : Config) (host : Host) :
    [(Artifact.Store.below file.parent.parent).manifestFile id] <+:
      (perform cycles request config).reads host := by
  have hverify : verify config request = verifyFile file := by rw [verify, hfile]
  obtain ⟨between, hperform⟩ : ∃ between,
      (perform cycles request config).reads host = (verifyFile file).reads between := by
    rw [perform, haction, hverify]
    exact ⟨_, rfl⟩
  rw [hperform, verifyFile, hid]
  refine List.IsPrefix.trans ?_ (Program.reads_prefix_bind _ _ _)
  refine List.IsPrefix.trans ?_ (Program.reads_prefix_bind _ _ _)
  rw [Program.reads_attempt]
  exact reads_load husable _ _

lemma manifestFile_below {directory : Key} {name : Bytes} (hdirectory : Spelled directory) (hname : IsName name)
    (hmanifest : IsName (id ++ Artifact.manifestSuffix)) :
    Spelled (directory.dropLast ++ [utf8 "manifests"]) ∧
      (Artifact.Store.below (pathOf (directory ++ [name])).parent.parent).manifestFile id =
        pathOf (directory.dropLast ++ [utf8 "manifests"] ++ [id ++ Artifact.manifestSuffix]) := by
  have hmanifests : IsName (utf8 "manifests") := ⟨by decide, by decide, by decide, by decide, by decide⟩
  have hbeside : Spelled (directory.dropLast ++ [utf8 "manifests"]) :=
    spelled_concat.mpr ⟨hdirectory.dropLast, hmanifests⟩
  refine ⟨hbeside, ?_⟩
  rw [pathOf_parent hdirectory hname, pathOf_parent_dropLast hdirectory]
  calc ((pathOf directory.dropLast).join (utf8 "manifests")).join (id ++ Artifact.manifestSuffix)
      = (pathOf (directory.dropLast ++ [utf8 "manifests"])).join (id ++ Artifact.manifestSuffix) := by
        rw [pathOf_join hdirectory.dropLast hmanifests]
    _ = pathOf (directory.dropLast ++ [utf8 "manifests"] ++ [id ++ Artifact.manifestSuffix]) :=
        pathOf_join hbeside hmanifest

lemma pathOf_beside_iff {directory : Key} {other name : Bytes} (hdirectory : Spelled directory)
    (hother : Spelled (directory.dropLast ++ [other])) (hname : IsName name) :
    pathOf (directory.dropLast ++ [other] ++ [name]) = pathOf (directory ++ [name]) ↔
      directory.getLast? = some other := by
  constructor
  · intro hsame
    have hkeys := pathOf_injective (spelled_concat.mpr ⟨hother, hname⟩)
      (spelled_concat.mpr ⟨hdirectory, hname⟩) (by simp) (by simp) hsame
    rw [← List.append_cancel_right hkeys, List.getLast?_concat]
  · intro hlast
    rw [List.dropLast_append_getLast? _ hlast]

/-- **Verifying a manifest file** opens the file of the same name in the directory called manifests that lies
beside the directory of the file. A command line that names a manifest is carried out for the regular file that
the path leads to. If its name has an identifier that artifacts can have, then the first file that is opened, with
whatever configuration and after whatever has happened in between, is the one of this name in the directory called
manifests; this is the file that was named if and only if that file lies in a directory of this name; and then, on
the same disk, its content is what is read. -/
theorem perform_opens_manifest (named : host.disk.Named)
    (hparse : (parse words).runOn host = (.ok request, after)) (hfile : request.manifestFile = some file)
    (hid : Artifact.bundleIdOf file = .ok id) (husable : Artifact.isUsable id = true) :
    ∃ (directory : Key) (content : Bytes),
      file = pathOf (directory ++ [id ++ Artifact.manifestSuffix]) ∧
      host.disk.find? (directory ++ [id ++ Artifact.manifestSuffix]) = some (.file content) ∧
      let opened := pathOf (directory.dropLast ++ [utf8 "manifests"] ++ [id ++ Artifact.manifestSuffix])
      (∀ cycles config later, [opened] <+: (perform cycles request config).reads later) ∧
      (opened = file ↔ directory.getLast? = some (utf8 "manifests")) ∧
      (opened = file → file.text.length ≤ longestPath → ∀ later : Host, later.disk = host.disk →
        later.limits.opening = true →
        later.disk.read later.here later.limits opened = .content content) := by
  obtain ⟨haction, key, content, hkey, hfind⟩ := parse_manifest hparse hfile
  obtain ⟨directory, name, rfl⟩ : ∃ directory name, key = directory ++ [name] := by
    rcases List.eq_nil_or_concat key with rfl | ⟨directory, name, rfl⟩
    · cases hfind
    · exact ⟨directory, name, List.concat_eq_append ..⟩
  obtain ⟨hdirectory, hname⟩ := spelled_concat.mp (named.spelled hfind)
  obtain rfl : name = id ++ Artifact.manifestSuffix := by
    rw [← fileName_of_bundleIdOf hid, hkey, pathOf_fileName hdirectory hname]
  obtain ⟨hbeside, hopened⟩ := manifestFile_below hdirectory hname hname
  refine ⟨directory, content, hkey, hfind, ?_, ?_, ?_⟩
  · intro cycles config later
    rw [← hopened, ← hkey]
    exact reads_perform haction hfile hid husable cycles config later
  · rw [hkey]
    exact pathOf_beside_iff hdirectory hbeside hname
  · intro hsame hlong later hdisk hopening
    rw [hkey] at hsame hlong
    rw [hsame, Disk.read, hopening, hdisk, named.resolve_pathOf hfind hlong]
    rfl

/-! ### A manifest beside another one -/

/-- A manifest of nothing. -/
def emptyManifest : Manifest := Manifest.sealed { rootHash := utf8 "r", bundleHash := Sha256.hex [] }

/-- Two files of one name: what is in a directory called manifests is a manifest, and the other one is not. -/
def besideHost : Host where
  disk := ⟨[([utf8 "m"], .directory), ([utf8 "m", utf8 "b.manifest.json"], .file (utf8 "broken")),
    ([utf8 "manifests"], .directory), ([utf8 "manifests", utf8 "b.manifest.json"],
      .file (Artifact.Store.textOf emptyManifest.document))]⟩

/-- Asks for a file to be checked. -/
def verifyWords (file : String) : List Bytes := [utf8 "verify", utf8 "--manifest", utf8 file]

def verifyRequest (file : String) : Invocation where
  action := .verify
  manifestFile := some (.ofString file)

lemma besideHost_named : besideHost.disk.Named where
  keys_nodup := by decide
  key_ne_nil := by decide
  parent_directory := by decide +kernel
  names := by
    have hm : IsEntryName (utf8 "m") := ⟨⟨by decide, by decide, by decide, by decide, by decide⟩, by decide⟩
    have hmanifests : IsEntryName (utf8 "manifests") :=
      ⟨⟨by decide, by decide, by decide, by decide, by decide⟩, by decide⟩
    have hfile : IsEntryName (utf8 "b.manifest.json") :=
      ⟨⟨by decide, by decide, by decide, by decide, by decide⟩, by decide⟩
    simp [besideHost, hm, hmanifests, hfile]

lemma parse_verifyWords :
    (parse (verifyWords "/m/b.manifest.json")).runOn besideHost =
      (.ok (verifyRequest "/m/b.manifest.json"), besideHost) :=
  Prod.ext (by decide +kernel) rfl

/-- A file in a directory of another name. -/
theorem perform_opens_manifest_beside :
    besideHost.disk.Named ∧
    (parse (verifyWords "/m/b.manifest.json")).runOn besideHost =
      (.ok (verifyRequest "/m/b.manifest.json"), besideHost) ∧
    Artifact.bundleIdOf (.ofString "/m/b.manifest.json") = .ok (utf8 "b") ∧
    ∃ directory : Key, Path.ofString "/m/b.manifest.json" = pathOf (directory ++ [utf8 "b.manifest.json"]) ∧
      ∀ cycles config later,
        [pathOf (directory.dropLast ++ [utf8 "manifests"] ++ [utf8 "b.manifest.json"])] <+:
          (perform cycles (verifyRequest "/m/b.manifest.json") config).reads later := by
  have hid : Artifact.bundleIdOf (.ofString "/m/b.manifest.json") = .ok (utf8 "b") := by decide +kernel
  obtain ⟨directory, content, hkey, -, hreads, -⟩ := perform_opens_manifest besideHost_named parse_verifyWords
    rfl hid (by decide)
  exact ⟨besideHost_named, parse_verifyWords, hid, directory, hkey, hreads⟩

/-- A file that is no manifest passes, since another file is opened. -/
theorem broken_manifest_passes :
    (parse (verifyWords "/m/b.manifest.json")).runOn besideHost =
      (.ok (verifyRequest "/m/b.manifest.json"), besideHost) ∧
    (verifyRequest "/m/b.manifest.json").manifestFile = some (.ofString "/m/b.manifest.json") ∧
    besideHost.disk.read besideHost.here besideHost.limits (.ofString "/m/b.manifest.json") =
      .content (utf8 "broken") ∧
    (∀ config later, [.ofString "/manifests/b.manifest.json"] <+:
      (perform 0 (verifyRequest "/m/b.manifest.json") config).reads later) ∧
    ((execute 0 (verifyWords "/m/b.manifest.json")).runOn besideHost).1.toOption = some 0 := by
  have hid : Artifact.bundleIdOf (.ofString "/m/b.manifest.json") = .ok (utf8 "b") := by decide +kernel
  refine ⟨parse_verifyWords, rfl, by decide +kernel, fun config later => ?_, by decide +kernel⟩
  exact reads_perform rfl rfl hid (by decide) 0 config later

end Command

end Chronicle
