import Chronicle.Proofs.Artifact.Published
import Chronicle.Proofs.Disk.Reordered
import Chronicle.Proofs.Disk.Seen
import Chronicle.Proofs.Disk.Walk
import Chronicle.Proofs.Storage.Unreadable

/-!
Which bundles a directory of manifests lists.

Manifests are written one after the other below a directory that is not there yet, and any of the writes can fail,
whichever of its steps does. What is listed then are the identifiers for which a write was done, each of them once and
in order: the name of a manifest gives back its identifier, whatever that looks like, and what a write leaves behind
under a temporary name is no manifest, since it ends in a digit.
-/

namespace Chronicle.Artifact

open Disk Storage

variable {store : Store} {start host after : Host} {out path directory : Path} {bundleId name : Bytes}

/-! ### Names of manifests -/

lemma getLast?_fileName_join {last : UInt8} (hlast : name.getLast? = some last) (hslash : last ≠ Bytes.slash)
    (directory : Path) : (directory.join name).fileName.getLast? = some last := by
  obtain ⟨front, rfl⟩ := List.getLast?_eq_some_iff.mp hlast
  have hjoin : ∃ before, (directory.join (front ++ [last])).text = before ++ [last] := by
    unfold Path.join
    split
    · exact ⟨front, rfl⟩
    split
    · exact ⟨directory.text ++ front, (List.append_assoc ..).symm⟩
    · exact ⟨directory.text ++ Bytes.slash :: front, by simp⟩
  obtain ⟨before, hbefore⟩ := hjoin
  rw [Path.fileName, hbefore, List.reverse_append, List.reverse_singleton, List.singleton_append,
    List.takeWhile_cons_of_pos (by simpa using hslash), List.reverse_cons, List.getLast?_concat]

lemma getLast?_temporaryName {digits : List Nat} (hdigits : ∀ digit ∈ digits, digit < 16) (target : Bytes) :
    ∃ last, (temporaryName target digits).getLast? = some last ∧ last ≠ Bytes.slash ∧ last ≠ 110 := by
  rw [temporaryName_eq]
  rcases List.eq_nil_or_concat digits with rfl | ⟨front, digit, rfl⟩
  · exact ⟨Bytes.dash, by rw [List.map_nil, List.append_nil, List.getLast?_append]; rfl, by decide, by decide⟩
  · have hne := hexDigit_ne digit (hdigits digit (by simp))
    refine ⟨Bytes.hexDigit digit, ?_, hne.1, hne.2.2.2⟩
    rw [List.concat_eq_append, List.map_append, List.map_singleton, ← List.append_assoc, List.getLast?_concat]

lemma not_isTemporary_of_listed (hid : bundleIdOf (directory.join name) = .ok bundleId) : ¬ IsTemporary name := by
  rintro ⟨target, digits, hdigits, rfl⟩
  obtain ⟨last, hlast, hslash, hletter⟩ := getLast?_temporaryName hdigits target
  have hname := getLast?_fileName_join hlast hslash directory
  rw [(bundleIdOf_eq_iff.mp hid).2, List.getLast?_append, isSuffix_manifest.last, Option.some_or,
    Option.some.injEq] at hname
  exact hletter hname.symm

lemma isName_manifestName (hid : IsName bundleId) : IsName (bundleId ++ manifestSuffix) :=
  isSuffix_manifest.isName hid.no_slash hid.no_null

lemma bundleIdOf_manifestFile (hid : IsName bundleId) (store : Store) :
    bundleIdOf (store.manifestFile bundleId) = .ok bundleId :=
  bundleIdOf_eq_iff.mpr ⟨hid.ne_nil, (isName_manifestName hid).fileName_join store.manifests⟩

/-! ### One write -/

/-- An attempt to write a manifest, and how it ended. -/
structure Attempt where
  bundleId : Bytes
  manifest : Manifest
  result : Except Failure Path

/-- The write was done. -/
def Attempt.Succeeded (attempt : Attempt) : Prop := ∃ path, attempt.result = .ok path

/-- How a write can end: with nothing new but directories and temporary files, or with the manifest in place. -/
inductive Attempt.Outcome (store : Store) (attempt : Attempt) (host after : Host) : Prop
  | failed (failure : Failure) (result : attempt.result = .error failure)
      (put : Put (fun _ _ => False) host.disk after.disk)
  | done (isName : IsName attempt.bundleId) (result : attempt.result = .ok (store.manifestFile attempt.bundleId))
      (above : store.manifests.Open) (opening : host.limits.opening = true)
      (filed : Filed host.disk host.here store.manifests (attempt.bundleId ++ manifestSuffix)
        (Store.textOf attempt.manifest.document) after.disk)

/-- **A write** leaves the working directory, and ends in one of two ways, whatever fails. -/
theorem Attempt.outcome {attempt : Attempt} (hnull : (0 : UInt8) ∉ attempt.bundleId)
    (tidy : Tidy host.disk host.here (Store.below out).manifests)
    (h : ((Store.below out).writeManifest attempt.bundleId attempt.manifest).MayEnd host attempt.result after) :
    after.here = host.here ∧ attempt.Outcome (.below out) host after := by
  by_cases husable : isUsable attempt.bundleId = true
  swap
  · rw [Store.writeManifest, Store.check, checkId, if_neg husable] at h
    obtain ⟨hresult, rfl⟩ := h.of_fail
    exact ⟨rfl, .failed _ hresult (Put.refl _)⟩
  have hid : IsName attempt.bundleId := isName_of_usable husable hnull
  have hname := isName_manifestName hid
  rw [Store.writeManifest, check_eq husable, Program.done_bind] at h
  by_cases hout : (0 : UInt8) ∈ out.text
  · obtain ⟨hhere, ⟨failure, hresult⟩, hfurnished⟩ :=
      futile_writeAtomically hout isName_manifests hname _ host _ after h
    exact ⟨hhere, .failed failure hresult (.of_furnished hfurnished)⟩
  · have hopen : (Store.below out).manifests.Open := isName_manifests.open_join hout
    obtain ⟨hhere, ⟨⟨failure, hresult⟩, hput⟩ | ⟨hresult, hfiled⟩⟩ := mayEnd_writeAtomically tidy hopen hname
      (isSuffix_manifest.not_isTemporary _) h
    · exact ⟨hhere, .failed failure hresult hput⟩
    · rw [hresult] at h
      exact ⟨hhere, .done hid hresult hopen (opening_of_written h) hfiled⟩

/-! ### Any number of writes -/

/-- Writes that were attempted one after the other, whatever failed in each, and the host after them. -/
inductive Attempts (store : Store) (start : Host) : List Attempt → Host → Prop
  | start : Attempts store start [] start
  | write {attempts : List Attempt} {attempt : Attempt} {host after : Host} (h : Attempts store start attempts host)
      (next : (store.writeManifest attempt.bundleId attempt.manifest).MayEnd host attempt.result after) :
      Attempts store start (attempts ++ [attempt]) after

variable {attempts : List Attempt} {attempt : Attempt}

/-- The place of the manifest of a write that was done. -/
def Landed (store : Store) (start : Host) (attempts : List Attempt) (key : Key) : Prop :=
  ∃ attempt ∈ attempts, attempt.Succeeded ∧ ∃ base, start.disk.aim start.here true store.manifests = some base ∧
    key = base ++ [attempt.bundleId ++ manifestSuffix]

/-- What can be said after some writes: nothing is new but what was put in place, and that is there. -/
structure Stocked (store : Store) (start : Host) (attempts : List Attempt) (host : Host) : Prop where
  here_eq : host.here = start.here
  limits_eq : host.limits = start.limits
  put : Put (fun key _ => Landed store start attempts key) start.disk host.disk
  result_eq : ∀ attempt ∈ attempts, ∀ path, attempt.result = .ok path →
    IsName attempt.bundleId ∧ path = store.manifestFile attempt.bundleId
  granted : ∀ attempt ∈ attempts, attempt.Succeeded → store.manifests.Open ∧ start.limits.opening = true
  has : ∀ attempt ∈ attempts, attempt.Succeeded →
    ∃ content, host.disk.Has host.here (store.manifestFile attempt.bundleId) content

lemma Landed.mono {more : List Attempt} {key : Key} (h : Landed store start attempts key) :
    Landed store start (attempts ++ more) key := by
  obtain ⟨attempt, hmem, h⟩ := h
  exact ⟨attempt, List.mem_append_left _ hmem, h⟩

lemma Landed.not_temporary {key : Key} (h : Landed store start attempts key) : ¬ TemporaryKey key := by
  obtain ⟨attempt, -, -, base, -, rfl⟩ := h
  exact not_temporaryKey (isSuffix_manifest.not_isTemporary _) base

lemma tidy_of_missing {disk : Disk} {here : Disk.Standing} (tree : disk.WellFormed)
    (missing : ∀ base, disk.aim here true directory = some base → disk.find? base ≠ some .directory) :
    Tidy disk here directory := by
  intro base hbase names hnames
  rcases hfind : disk.find? (base ++ names) with _ | entry
  · exact Or.inl hfind
  · exact absurd (tree.directory_above hnames hfind) (missing base hbase)

lemma Stocked.isName (h : Stocked store start attempts host) (hmem : attempt ∈ attempts) (hdone : attempt.Succeeded) :
    IsName attempt.bundleId := by
  obtain ⟨path, hpath⟩ := hdone
  exact (h.result_eq attempt hmem path hpath).1

lemma Stocked.has_put {written : Key → Bytes → Prop} {disk : Disk} (h : Stocked store start attempts host)
    (hput : Put written host.disk disk) (hmem : attempt ∈ attempts) (hdone : attempt.Succeeded) :
    ∃ content, disk.Has host.here (store.manifestFile attempt.bundleId) content := by
  obtain ⟨content, hhas⟩ := h.has attempt hmem hdone
  exact Put.has_some hput (h.granted attempt hmem hdone).1 (isName_manifestName (h.isName hmem hdone))
    (isSuffix_manifest.not_isTemporary _) hhas

/-- After a write that failed, nothing more is in place. -/
lemma Stocked.failed {failure : Failure} (h : Stocked store start attempts host)
    (hresult : attempt.result = .error failure) (hhere : after.here = host.here)
    (hlimits : after.limits = host.limits) (hput : Put (fun _ _ => False) host.disk after.disk) :
    Stocked store start (attempts ++ [attempt]) after := by
  have hnot : ¬ attempt.Succeeded := by
    rintro ⟨path, hpath⟩
    rw [hresult] at hpath
    cases hpath
  have hearlier : ∀ other ∈ attempts ++ [attempt], other.Succeeded → other ∈ attempts := by
    intro other hmem hdone
    rcases List.mem_append.mp hmem with hmem | hlast
    · exact hmem
    · exact absurd (List.mem_singleton.mp hlast ▸ hdone) hnot
  refine ⟨hhere.trans h.here_eq, hlimits.trans h.limits_eq,
    (h.put.mono fun _ _ => Landed.mono).trans (fun _ _ => Landed.not_temporary) hput.of_none,
    fun other hmem path hpath => h.result_eq other (hearlier other hmem ⟨path, hpath⟩) path hpath,
    fun other hmem hdone => h.granted other (hearlier other hmem hdone) hdone, fun other hmem hdone => ?_⟩
  rw [hhere]
  exact h.has_put hput (hearlier other hmem hdone) hdone

/-- After a write that was done, its manifest is in place as well. -/
lemma Stocked.done (h : Stocked store start attempts host) (hid : IsName attempt.bundleId)
    (hresult : attempt.result = .ok (store.manifestFile attempt.bundleId)) (hhere : after.here = host.here)
    (hlimits : after.limits = host.limits) (hopen : store.manifests.Open) (hopening : host.limits.opening = true)
    (hfiled : Filed host.disk host.here store.manifests (attempt.bundleId ++ manifestSuffix)
      (Store.textOf attempt.manifest.document) after.disk) :
    Stocked store start (attempts ++ [attempt]) after := by
  have hplaced : Put (fun key _ => Landed store start (attempts ++ [attempt]) key) host.disk after.disk := by
    refine hfiled.put.mono fun key _ hlands => ?_
    obtain ⟨-, base, hbase, hkey⟩ := hlands
    rw [h.here_eq, h.put.aim_eq] at hbase
    exact ⟨attempt, by simp, ⟨_, hresult⟩, base, hbase, hkey⟩
  refine ⟨hhere.trans h.here_eq, hlimits.trans h.limits_eq,
    (h.put.mono fun _ _ => Landed.mono).trans (fun _ _ => Landed.not_temporary) hplaced,
    fun other hmem path hpath => ?_, fun other hmem hdone => ?_, fun other hmem hdone => ?_⟩
  · rcases List.mem_append.mp hmem with hmem | hlast
    · exact h.result_eq other hmem path hpath
    · obtain rfl := List.mem_singleton.mp hlast
      rw [hresult] at hpath
      exact ⟨hid, (Except.ok.inj hpath).symm⟩
  · rcases List.mem_append.mp hmem with hmem | -
    · exact h.granted other hmem hdone
    · exact ⟨hopen, h.limits_eq ▸ hopening⟩
  · rw [hhere]
    rcases List.mem_append.mp hmem with hmem | hlast
    · exact h.has_put hfiled.put hmem hdone
    · obtain rfl := List.mem_singleton.mp hlast
      exact ⟨_, hfiled.has⟩

lemma Stocked.write (h : Stocked (.below out) start attempts host) (hnull : (0 : UInt8) ∉ attempt.bundleId)
    (tidy : Tidy start.disk start.here (Store.below out).manifests)
    (next : ((Store.below out).writeManifest attempt.bundleId attempt.manifest).MayEnd host attempt.result after) :
    Stocked (.below out) start (attempts ++ [attempt]) after := by
  have htidy : Tidy host.disk host.here (Store.below out).manifests := by
    rw [h.here_eq]
    exact tidy.put h.put
  have hlimits := limits_of_mayEnd next
  obtain ⟨hhere, houtcome⟩ := Attempt.outcome hnull htidy next
  cases houtcome with
  | failed failure hresult hput => exact h.failed hresult hhere hlimits hput
  | done hid hresult hopen hopening hfiled => exact h.done hid hresult hhere hlimits hopen hopening hfiled

/-- **Any number of writes** put in place what they are done with, and nothing else. -/
theorem Attempts.stocked (h : Attempts (.below out) start attempts host)
    (named : ∀ attempt ∈ attempts, (0 : UInt8) ∉ attempt.bundleId)
    (tidy : Tidy start.disk start.here (Store.below out).manifests) :
    Stocked (.below out) start attempts host := by
  induction h with
  | start => exact ⟨rfl, rfl, Put.refl _, by simp, by simp, by simp⟩
  | write h next ih =>
    exact (ih fun attempt hmem => named attempt (List.mem_append_left _ hmem)).write (named _ (by simp)) tidy next

/-! ### What is listed -/

/-- The identifiers that a directory lists, in the order in which it lists them. -/
def idsIn (store : Store) (host : Host) : List Bytes :=
  (if host.limits.opening then host.disk.list host.here store.manifests else []).filterMap Store.listedId?

lemma idsIn_eq_nil (h : ∀ base, host.disk.resolve host.here true store.manifests ≠
    .ok (.present (.inside base) .directory)) : idsIn store host = [] := by
  have hlist : host.disk.list host.here store.manifests = [] := by
    unfold Disk.list
    split
    · next base hbase => exact absurd hbase (h base)
    · rfl
  rw [idsIn, hlist, ite_self]
  rfl

lemma runOn_listBundleIds (store : Store) (host : Host) :
    store.listBundleIds.runOn host = (.ok (sortBy Bytes.precedes (idsIn store host)), host) := by
  have hnone : (∀ base, host.disk.resolve host.here true store.manifests ≠
      .ok (.present (.inside base) .directory)) → sortBy Bytes.precedes (idsIn store host) = [] := by
    intro h
    rw [idsIn_eq_nil h]
    rfl
  rw [Store.listBundleIds, Program.runOn_bind, runOn_isDirectory, Disk.status]
  rcases hresolve : host.disk.resolve host.here true store.manifests with reason | ⟨place, entry⟩ | ⟨key, trailing⟩
  · rw [hnone (by simp [hresolve])]
    rfl
  · cases entry with
    | directory => rfl
    | _ =>
      rw [hnone (by simp [hresolve])]
      rfl
  · rw [hnone (by simp [hresolve])]
    rfl

/-- What is listed with an identifier has the name of its manifest, and was written. -/
lemma Stocked.name_of_listed (h : Stocked store start attempts host) (tree : host.disk.WellFormed)
    (hstart : start.disk.WellFormed)
    (missing : ∀ base, start.disk.aim start.here true store.manifests = some base →
      start.disk.find? base ≠ some .directory)
    {base : Key} (hbase : start.disk.aim start.here true store.manifests = some base) {child : Bytes × Entry}
    (hchild : child ∈ host.disk.children base)
    (hlisted : Store.listedId? (host.disk.found host.here (store.manifests.join child.1) child.2) = some bundleId) :
    child.1 = bundleId ++ manifestSuffix ∧ ∃ attempt ∈ attempts, attempt.bundleId = bundleId ∧ attempt.Succeeded := by
  have hfind : host.disk.find? (base ++ [child.1]) = some child.2 := tree.find?_of_mem (mem_children.mp hchild)
  obtain ⟨hregular, hid⟩ : (host.disk.found host.here (store.manifests.join child.1) child.2).regular = true ∧
      bundleIdOf (store.manifests.join child.1) = .ok bundleId := by
    unfold Store.listedId? at hlisted
    split at hlisted
    · next hregular =>
      rw [found_path] at hlisted
      exact ⟨hregular, toOption_eq_some.mp hlisted⟩
    · cases hlisted
  obtain ⟨content, hfile⟩ : ∃ content, child.2 = .file content := by
    -- There are no links and no devices in the directory.
    have htidy := (tidy_of_missing hstart missing).put h.put
    rcases htidy base ((h.put.aim_eq true _).trans hbase) [child.1] (by simp) with
      hnot | hdirectory | ⟨content, hfile⟩
    · rw [hfind] at hnot
      cases hnot
    · rw [hfind, Option.some.injEq] at hdirectory
      rw [hdirectory] at hregular
      cases hregular
    · exact ⟨content, Option.some.inj (hfind.symm.trans hfile)⟩
  rw [hfile] at hfind
  have hlasting := not_temporaryKey (not_isTemporary_of_listed hid) base
  rcases h.put.file_from hlasting hfind with hbefore | ⟨attempt, hmem, hsucceeded, base', -, hkey⟩
  · have habove := hstart.parent hbefore (by simp)
    rw [List.dropLast_concat] at habove
    exact absurd habove (missing base hbase)
  · have hname : child.1 = attempt.bundleId ++ manifestSuffix := by
      simpa using (List.append_inj' hkey rfl).2
    have hlast := (bundleIdOf_eq_iff.mp hid).2
    rw [hname, (isName_manifestName (h.isName hmem hsucceeded)).fileName_join] at hlast
    have hsame := List.append_cancel_right hlast
    exact ⟨hsame ▸ hname, attempt, hmem, hsame, hsucceeded⟩

lemma Stocked.reordered {disk : Disk} (h : Stocked store start attempts host) (same : host.disk.Reordered disk) :
    Stocked store start attempts { host with disk := disk } where
  here_eq := h.here_eq
  limits_eq := h.limits_eq
  put := h.put.trans (fun _ _ => Landed.not_temporary) fun key => .spared (Or.inl (same.find?_eq key))
  result_eq := h.result_eq
  granted := h.granted
  has attempt hmem hdone := by
    obtain ⟨content, key, hleads, hfile⟩ := h.has attempt hmem hdone
    have hfile' : disk.find? key = some (.file content) := (same.find?_eq key).trans hfile
    refine ⟨content, key, ?_, hfile'⟩
    change disk.resolve host.here false _ = .ok (disk.placeAt key)
    rw [same.resolve_eq, hleads, placeAt_of_find hfile, placeAt_of_find hfile']

section

variable (h : Stocked store start attempts host) (tree : host.disk.WellFormed) (hstart : start.disk.WellFormed)
  (missing : ∀ base, start.disk.aim start.here true store.manifests = some base →
    start.disk.find? base ≠ some .directory)

include h tree hstart missing

lemma Stocked.mem_idsIn : bundleId ∈ idsIn store host ↔
    ∃ attempt ∈ attempts, attempt.bundleId = bundleId ∧ attempt.Succeeded := by
  constructor
  · intro hmem
    obtain ⟨found, hfound, hlisted⟩ := List.mem_filterMap.mp hmem
    split at hfound
    swap
    · cases hfound
    unfold Disk.list at hfound
    split at hfound
    · next base hbase =>
      obtain ⟨child, hchild, rfl⟩ := List.mem_map.mp hfound
      have haim := aim_of_present hbase
      rw [h.put.aim_eq, h.here_eq] at haim
      exact (h.name_of_listed tree hstart missing haim hchild hlisted).2
    · cases hfound
  · rintro ⟨attempt, hmem, rfl, hdone⟩
    obtain ⟨hopen, hopening⟩ := h.granted attempt hmem hdone
    obtain ⟨content, key, hleads, hfile⟩ := h.has attempt hmem hdone
    have hid := h.isName hmem hdone
    rw [Disk.Leads, placeAt_of_find hfile] at hleads
    obtain ⟨base, rfl, hbase⟩ := resolve_of_join hopen (isName_manifestName hid) hleads
    have hchild : (attempt.bundleId ++ manifestSuffix, Entry.file content) ∈ host.disk.children base :=
      mem_children.mpr (mem_of_find? hfile (by simp))
    have hlisted : Store.listedId? ⟨store.manifestFile attempt.bundleId, true⟩ = some attempt.bundleId := by
      rw [Store.listedId?, if_pos rfl, bundleIdOf_manifestFile hid]
      rfl
    rw [idsIn, if_pos (h.limits_eq ▸ hopening), Disk.list, hbase]
    exact List.mem_filterMap.mpr ⟨_, List.mem_map.mpr ⟨_, hchild, rfl⟩, hlisted⟩

lemma Stocked.nodup_idsIn : (idsIn store host).Nodup := by
  unfold idsIn
  split
  swap
  · exact List.nodup_nil
  unfold Disk.list
  split
  · next base hbase =>
    have haim := aim_of_present hbase
    rw [h.put.aim_eq, h.here_eq] at haim
    rw [List.filterMap_map]
    refine List.pairwise_filterMap.mpr ((tree.children_pairwise base).imp_of_mem ?_)
    rintro child other hchild hother hne id hid _ hid' rfl
    have hname := (h.name_of_listed tree hstart missing haim hchild hid).1
    have hname' := (h.name_of_listed tree hstart missing haim hother hid').1
    exact hne (hname.trans hname'.symm)
  · exact List.nodup_nil

end

lemma sorted_ids {ids : List Bytes} (hnodup : ids.Nodup) : (sortBy Bytes.precedes ids).Pairwise (· < ·) :=
  sortBy_strictly id (ids.map_id.symm ▸ hnodup)

lemma exists_written (attempts : List Attempt) : ∃ written : List Bytes, written.Nodup ∧
    ∀ id, id ∈ written ↔ ∃ attempt ∈ attempts, attempt.bundleId = id ∧ attempt.Succeeded := by
  classical
  refine ⟨((attempts.filter fun attempt => attempt.Succeeded).map (·.bundleId)).dedup, List.nodup_dedup _,
    fun id => ?_⟩
  simp only [List.mem_dedup, List.mem_map, List.mem_filter, decide_eq_true_eq]
  exact ⟨fun ⟨attempt, ⟨hmem, hdone⟩, hid⟩ => ⟨attempt, hmem, hid, hdone⟩,
    fun ⟨attempt, hmem, hid, hdone⟩ => ⟨attempt, ⟨hmem, hdone⟩, hid⟩⟩

lemma listedId?_temporaryPath {digits : List Nat} (hdigits : ∀ digit ∈ digits, digit < 16) (target : Path)
    (regular : Bool) : Store.listedId? ⟨temporaryPath target digits, regular⟩ = none := by
  unfold Store.listedId?
  split
  · rcases hid : bundleIdOf (temporaryPath target digits) with fault | id
    · rfl
    · exact absurd ⟨target.fileName, digits, hdigits, rfl⟩ (not_isTemporary_of_listed hid)
  · rfl

/-- **The list of bundles is exact.** Manifests are written any number of times below a directory, with identifiers
without null bytes, where there is no directory of manifests yet; any write can fail at any step. Then the bundles
that are listed are those for which some write was done, each of them once and in ascending order, and they are the
same in whatever order the directory lists its entries. The path that such a write gives back has the identifier it
was written under. What has the name of a temporary file is never listed. -/
theorem listBundleIds_exact (hstart : start.disk.WellFormed)
    (missing : ∀ base, start.disk.aim start.here true (Store.below out).manifests = some base →
      start.disk.find? base ≠ some .directory)
    (named : ∀ attempt ∈ attempts, (0 : UInt8) ∉ attempt.bundleId)
    (history : Attempts (.below out) start attempts host) :
    (∃ ids : List Bytes, ids.Pairwise (· < ·) ∧
      (∀ id, id ∈ ids ↔ ∃ attempt ∈ attempts, attempt.bundleId = id ∧ attempt.Succeeded) ∧
      ∀ disk, host.disk.Reordered disk → (Store.below out).listBundleIds.runOn { host with disk := disk } =
        (.ok ids, { host with disk := disk })) ∧
    (∀ attempt ∈ attempts, ∀ path, attempt.result = .ok path → bundleIdOf path = .ok attempt.bundleId) ∧
    (∀ target digits regular, (∀ digit ∈ digits, digit < 16) →
      Store.listedId? ⟨temporaryPath target digits, regular⟩ = none) := by
  have stocked := history.stocked named (tidy_of_missing hstart missing)
  refine ⟨?_, fun attempt hmem path hpath => ?_, fun target digits regular hdigits =>
    listedId?_temporaryPath hdigits target regular⟩
  · obtain ⟨written, hnodup, hwritten⟩ := exists_written attempts
    refine ⟨sortBy Bytes.precedes written, sorted_ids hnodup, fun id => ?_, fun disk same => ?_⟩
    · rw [(sortBy_perm _ _).mem_iff, hwritten]
    · have hlisted := stocked.reordered same
      have hids : (idsIn (.below out) { host with disk := disk }).Nodup :=
        hlisted.nodup_idsIn same.tree hstart missing
      have hperm : (idsIn (.below out) { host with disk := disk }).Perm written :=
        (List.perm_ext_iff_of_nodup hids hnodup).mpr fun id =>
          (hlisted.mem_idsIn same.tree hstart missing).trans (hwritten id).symm
      have hsame := ((sortBy_perm Bytes.precedes _).trans hperm).trans (sortBy_perm Bytes.precedes _).symm
      rw [runOn_listBundleIds, eq_of_perm_of_strictly hsame (sorted_ids hids) (sorted_ids hnodup)]
  · obtain ⟨hid, rfl⟩ := stocked.result_eq attempt hmem path hpath
    exact bundleIdOf_manifestFile hid _

/-- A manifest that is written below a directory that does not exist yet. -/
def writeBelow (id : Bytes) : Program Path := (Store.below ⟨utf8 "o"⟩).writeManifest id {}

lemma refused_writeBelow (husable : isUsable bundleId = true) (hnull : (0 : UInt8) ∉ bundleId) (host : Host) :
    ∃ failure, (writeBelow bundleId).MayEnd host (.error failure) host := by
  have hid : IsName bundleId := isName_of_usable husable hnull
  have hdirectory : (Store.below ⟨utf8 "o"⟩).manifests.Unended := isName_manifests.unended_join ⟨utf8 "o"⟩
  rw [writeBelow, Store.writeManifest, check_eq husable, Program.done_bind]
  exact refused_writeAtomically hdirectory (isName_manifestName hid) _ host

/-- One write is done, under an identifier that looks like the name of a hidden manifest, and one is refused. -/
theorem listBundleIds_exact_hidden :
    ∃ host path failure,
      Attempts (.below ⟨utf8 "o"⟩) {}
        [⟨utf8 ".a.manifest.json", {}, .ok path⟩, ⟨utf8 "b", {}, .error failure⟩] host ∧
      bundleIdOf path = .ok (utf8 ".a.manifest.json") ∧
      ∀ disk, host.disk.Reordered disk →
        (Store.below ⟨utf8 "o"⟩).listBundleIds.runOn { host with disk := disk } =
          (.ok [utf8 ".a.manifest.json"], { host with disk := disk }) := by
  have hfirst : (0 : UInt8) ∉ utf8 ".a.manifest.json" := by decide
  have hsecond : (0 : UInt8) ∉ utf8 "b" := by decide
  have husable : isUsable (utf8 "b") = true := by decide
  obtain ⟨path, hpath⟩ : ∃ path, ((writeBelow (utf8 ".a.manifest.json")).runOn {}).1 = .ok path :=
    ⟨.ofString "o/manifests/.a.manifest.json.manifest.json", by decide +kernel⟩
  have hdone := Program.mayEnd_runOn (writeBelow (utf8 ".a.manifest.json")) {}
  rw [hpath] at hdone
  generalize ((writeBelow (utf8 ".a.manifest.json")).runOn {}).2 = host at hdone
  obtain ⟨failure, hfailed⟩ := refused_writeBelow husable hsecond host
  have history : Attempts (.below ⟨utf8 "o"⟩) {}
      ([⟨utf8 ".a.manifest.json", {}, .ok path⟩] ++ [⟨utf8 "b", {}, .error failure⟩]) host :=
    .write (@Attempts.write _ _ [] ⟨utf8 ".a.manifest.json", {}, .ok path⟩ _ _ .start hdone) hfailed
  have hstart : ({} : Host).disk.WellFormed := ⟨by decide, by decide, by decide⟩
  have haim : ({} : Host).disk.aim ({} : Host).here true (Store.below ⟨utf8 "o"⟩).manifests =
      some [utf8 "o", utf8 "manifests"] := by decide +kernel
  have hmissing : ∀ base, ({} : Host).disk.aim ({} : Host).here true (Store.below ⟨utf8 "o"⟩).manifests = some base →
      ({} : Host).disk.find? base ≠ some .directory := by
    intro base hbase
    obtain rfl := Option.some.inj (haim.symm.trans hbase)
    decide
  obtain ⟨⟨ids, hsorted, hids, hlisted⟩, hback, -⟩ := listBundleIds_exact hstart hmissing
    (List.forall_mem_cons.mpr ⟨hfirst, List.forall_mem_singleton.mpr hsecond⟩) history
  -- The list has the one identifier that was written under.
  have hone : ids = [utf8 ".a.manifest.json"] := by
    have hnodup : ids.Nodup := by
      refine hsorted.imp ?_
      intro id other hlt heq
      exact List.lt_irrefl _ (heq ▸ hlt)
    refine List.perm_singleton.mp ((List.perm_ext_iff_of_nodup hnodup (List.nodup_singleton _)).mpr fun id => ?_)
    rw [hids]
    simp [Attempt.Succeeded, eq_comm]
  rw [hone] at hlisted
  exact ⟨host, path, failure, history, hback _ (List.mem_cons_self ..) path rfl, hlisted⟩

end Chronicle.Artifact
