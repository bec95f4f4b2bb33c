import Chronicle.Proofs.Disk.Made
import Chronicle.Proofs.Storage.Put
import Chronicle.Proofs.System.Troubled

/-!
Writing a file whole, whatever fails.

A file is written to a temporary file and that is renamed, and each of these steps, making the directories
above and removing the temporary file again, can be refused or break off. The write ends with a failure
and the file as it was, or it is done and the file has the whole of its new content.
-/

namespace Chronicle.Storage

open Disk

variable {host between after : Host} {directory : Path} {name temporary data : Bytes}

/-! ### Single steps -/

lemma lastDigits_lt (count n : Nat) : ∀ digit ∈ Host.lastDigits count n, digit < 16 := by
  induction count generalizing n with
  | zero => simp [Host.lastDigits]
  | succ count ih =>
    intro digit hdigit
    rw [Host.lastDigits, List.mem_append, List.mem_singleton] at hdigit
    rcases hdigit with hfront | rfl
    · exact ih _ digit hfront
    · exact Nat.mod_lt _ (by decide)

lemma digits_of_draws {count : Nat} {digits : List Nat}
    (h : host.MayAnswer (.draws count) digits between) :
    (∀ digit ∈ digits, digit < 16) ∧ between.disk = host.disk ∧ between.here = host.here := by
  cases h with
  | granted => exact ⟨lastDigits_lt count host.drawn, rfl, rfl⟩
  | failed h => cases h
  | drawn h => exact ⟨h, rfl, rfl⟩

lemma mayEnd_ensureParent {path : Path} {result : Except Failure Unit}
    (h : (ensureParent path).MayEnd host result between) :
    between.here = host.here ∧ Furnished host.disk between.disk := by
  have hanswer : ∀ {answer : Option Errno},
      host.MayAnswer (.makeDirectories path.parent) answer between →
      between.here = host.here ∧ Furnished host.disk between.disk := by
    intro answer hanswer
    cases hanswer with
    | granted => exact ⟨rfl, makeDirectories_furnished _ _ _⟩
    | failed hfails =>
      cases hfails with
      | makeDirectories hmade => exact ⟨rfl, hmade⟩
  unfold ensureParent at h
  split at h
  · obtain ⟨-, rfl⟩ := h.of_done
    exact ⟨rfl, Furnished.refl _⟩
  · obtain ⟨answer, made, hmade, hrest⟩ := h.request_bind
    cases answer with
    | none =>
      obtain ⟨-, rfl⟩ := hrest.of_done
      exact hanswer hmade
    | some reason =>
      obtain ⟨-, rfl⟩ := hrest.of_fail
      exact hanswer hmade

/-- A file of some name in a directory has this content now. -/
def Wrought (host : Host) (directory : Path) (name part : Bytes) (between : Host) : Prop :=
  ∃ base, host.disk.aim host.here true directory = some base ∧ host.disk.Writable (base ++ [name]) ∧
    between = { host with disk := host.disk.set (base ++ [name]) (.file part) }

/-- Where there are no links, a file is written under its own name, or not at all. -/
lemma answer_overwrite_join (tidy : Tidy host.disk host.here directory) (hdirectory : directory.Open)
    (hname : IsName name) (data : Bytes) :
    host.answer (.overwrite (directory.join name) data) = (.unopened, host) ∨
      ∃ part, part <+: data ∧
        ((host.answer (.overwrite (directory.join name) data)).1 = .written ∧ part = data ∨
          (host.answer (.overwrite (directory.join name) data)).1 = .cutShort) ∧
        Wrought host directory name part (host.answer (.overwrite (directory.join name) data)).2 := by
  rcases writeBehind_cases host.disk host.here host.limits (fun _ => []) (directory.join name) data with
    ⟨hdisk, hunopened | ⟨place, hdevice, -⟩⟩ | ⟨key, part, hwrote⟩
  · left
    simp [Host.answer, overwrite, hdisk, hunopened]
  · -- A device in the directory would be neither a file nor a directory.
    have hthere : host.disk.standingEntry place = some .fullDevice := resolve_isOn hdevice
    cases place with
    | detached parent => cases hthere
    | inside key =>
      have hfind : host.disk.find? key = some .fullDevice := hthere
      obtain ⟨base, hbase, rfl⟩ := tidy.aim_join hdirectory hname (aim_of_present hdevice)
      rcases tidy base hbase [name] (by simp) with hnot | hnot | ⟨content, hnot⟩ <;>
        rw [hfind] at hnot <;> cases hnot
  · right
    obtain ⟨base, hbase, rfl⟩ := tidy.aim_join hdirectory hname hwrote.leads.aim_eq
    have hdisk := hwrote.disk_eq
    refine ⟨part, hwrote.part_prefix, hwrote.complete, base, hbase, hwrote.writable, ?_⟩
    simp only [Host.answer, overwrite]
    rcases hwrote.writable with hnone | ⟨content, hfile⟩
    · rw [hdisk, hnone]
      rfl
    · rw [hdisk, hfile]
      rfl

/-- A temporary file is not opened, or holds a part of the data, or all of it if the write is done. -/
lemma wrought_of_overwrite (tidy : Tidy host.disk host.here directory) (hdirectory : directory.Open)
    (hname : IsName name) {result : WriteResult}
    (h : host.MayAnswer (.overwrite (directory.join name) data) result between) :
    result = .unopened ∧ between = host ∨
      ∃ part, Wrought host directory name part between ∧
        (result = .written ∧ part = data ∨ result = .cutShort) := by
  cases h with
  | granted =>
    rcases answer_overwrite_join tidy hdirectory hname data with hrefused | ⟨part, -, hresult, hwrought⟩
    · exact Or.inl ⟨congrArg Prod.fst hrefused, congrArg Prod.snd hrefused⟩
    · exact Or.inr ⟨part, hwrought, hresult⟩
  | failed h =>
    cases h with
    | unopened => exact Or.inl ⟨rfl, rfl⟩
    | cutShort h opened =>
      rcases answer_overwrite_join tidy hdirectory hname _ with hrefused | ⟨part, -, -, hwrought⟩
      · exact absurd (congrArg Prod.fst hrefused) opened
      · exact Or.inr ⟨part, hwrought, Or.inr rfl⟩

lemma removed_of_remove (hdirectory : directory.Open) (hname : IsName name) {answer : Option Errno}
    (h : host.MayAnswer (.remove (directory.join name)) answer between) :
    between = host ∨ ∃ base, host.disk.aim host.here true directory = some base ∧
      between = { host with disk := host.disk.erase (base ++ [name]) } := by
  cases h with
  | granted =>
    rcases hremove : host.disk.remove host.here (directory.join name) with reason | disk
    · left
      simp [Host.answer, Host.withDisk, hremove]
    · right
      obtain ⟨key, entry, hresolve, -, rfl⟩ := remove_cases hremove
      obtain ⟨base, hbase, hnamed⟩ := aim_join hdirectory hname (aim_of_present hresolve)
      refine ⟨base, hbase, ?_⟩
      rw [← hnamed fun hfollow => nomatch hfollow]
      simp [Host.answer, Host.withDisk, hremove]
  | failed h =>
    cases h with
    | remove => exact Or.inl rfl

/-- An entry was moved to another name in its directory, where no directory was. -/
structure Moved (host : Host) (directory : Path) (source target : Bytes) (base : Key) (entry : Entry)
    (between : Host) : Prop where
  aim_eq : host.disk.aim host.here true directory = some base
  find?_source : host.disk.find? (base ++ [source]) = some entry
  not_directory : host.disk.find? (base ++ [target]) ≠ some .directory
  leads : host.disk.Leads host.here false (directory.join target) (base ++ [target])
  between_eq : between = { host with
    disk := (host.disk.erase (base ++ [source])).set (base ++ [target]) entry }

lemma moved_of_rename {source target : Bytes} (hdirectory : directory.Open) (hsource : IsName source)
    (htarget : IsName target) (hne : target ≠ source) {answer : Option Errno}
    (h : host.MayAnswer (.rename (directory.join source) (directory.join target)) answer between) :
    (∃ reason, answer = some reason) ∧ between = host ∨
      answer = none ∧ ∃ base entry, Moved host directory source target base entry between := by
  cases h with
  | granted =>
    rcases hrename : host.disk.rename host.here (directory.join source) (directory.join target) with
      reason | disk
    · left
      simp [Host.answer, Host.withDisk, hrename]
    · right
      obtain ⟨sourceKey, entry, key, hresolve, -, hleads, hplace, hdisk⟩ := rename_cases hrename
      obtain ⟨base, hbase, hnamed⟩ := aim_join hdirectory hsource (aim_of_present hresolve)
      obtain ⟨base', hbase', hnamed'⟩ := aim_join hdirectory htarget hleads.aim_eq
      rw [hbase, Option.some.injEq] at hbase'
      subst hbase'
      obtain rfl : sourceKey = base ++ [source] := hnamed fun hfollow => nomatch hfollow
      obtain rfl : key = base ++ [target] := hnamed' fun hfollow => nomatch hfollow
      obtain ⟨-, rfl⟩ := hdisk.resolve_left fun heq => hne (by simpa using heq.1)
      refine ⟨by simp [Host.answer, Host.withDisk, hrename], base, entry, hbase,
        resolve_isOn hresolve, hplace, hleads, by simp [Host.answer, Host.withDisk, hrename]⟩
  | failed h =>
    cases h with
    | rename => exact Or.inl ⟨⟨_, rfl⟩, rfl⟩

/-! ### A file as a whole -/

/-- A file of some name in a directory is the only one that was put in place, and has this content. -/
structure Filed (disk : Disk) (here : Standing) (directory : Path) (name data : Bytes) (after : Disk) :
    Prop where
  has : after.Has here (directory.join name) data
  put : Put (fun key content => content = data ∧
    ∃ base, disk.aim here true directory = some base ∧ key = base ++ [name]) disk after

variable {part : Bytes}

lemma Wrought.put (h : Wrought host directory temporary part between)
    (htemporary : IsTemporary temporary) : Put (fun _ _ => False) host.disk between.disk := by
  obtain ⟨base, -, hwritable, rfl⟩ := h
  intro key
  by_cases hkey : base ++ [temporary] = key
  · subst hkey
    refine .temporary ⟨temporary, List.getLast?_concat, htemporary⟩ hwritable (Or.inr (Or.inr ⟨part, ?_⟩))
    exact find?_set_self host.disk (by simp) _
  · refine .spared (Or.inl ?_)
    rw [find?_set host.disk (by simp), if_neg hkey]

/-- Whether or not the temporary file can be removed, nothing else has changed. -/
lemma Wrought.removed (h : Wrought host directory temporary part between)
    (htemporary : IsTemporary temporary) (hdirectory : directory.Open) (hname : IsName temporary)
    {answer : Option Errno} (hremove : between.MayAnswer (.remove (directory.join temporary)) answer after) :
    after.here = host.here ∧ Put (fun _ _ => False) host.disk after.disk := by
  have hput := h.put htemporary
  obtain ⟨base, hbase, -, rfl⟩ := h
  rcases removed_of_remove hdirectory hname hremove with rfl | ⟨base', hbase', rfl⟩
  · exact ⟨rfl, hput⟩
  · rw [hput.aim_eq, hbase, Option.some.injEq] at hbase'
    subst hbase'
    refine ⟨rfl, hput.trans (fun _ _ hnever => hnever.elim) fun key => ?_⟩
    by_cases hkey : base ++ [temporary] = key
    · subst hkey
      refine .temporary ⟨temporary, List.getLast?_concat, htemporary⟩
        (Or.inr ⟨part, find?_set_self host.disk (by simp) _⟩) (Or.inl ?_)
      rw [find?_erase _ (by simp), if_pos rfl]
    · refine .spared (Or.inl ?_)
      rw [find?_erase _ (by simp), if_neg hkey]

/-- The temporary file is put in place by a rename. -/
lemma Wrought.moved (h : Wrought host directory temporary data between)
    (tidy : Tidy host.disk host.here directory) (htemporary : IsTemporary temporary)
    (hlasting : ¬ IsTemporary name) {base : Key} {entry : Entry}
    (hmoved : Moved between directory temporary name base entry after) :
    after.here = host.here ∧ Filed host.disk host.here directory name data after.disk := by
  have hput := h.put htemporary
  obtain ⟨base', hbase', -, rfl⟩ := h
  have hbase := hmoved.aim_eq
  rw [hput.aim_eq, hbase', Option.some.injEq] at hbase
  subst hbase
  obtain rfl : entry = .file data := by
    have hsource := hmoved.find?_source
    rw [find?_set_self host.disk (by simp), Option.some.injEq] at hsource
    exact hsource.symm
  -- The directory is tidy, so what stands under the name is a file or nothing.
  have hwritable : (host.disk.set (base' ++ [temporary]) (.file data)).Writable (base' ++ [name]) := by
    have htidy := tidy.put hput
    rcases htidy base' hmoved.aim_eq [name] (by simp) with hnone | hdirectory | hfile
    · exact Or.inl hnone
    · exact absurd hdirectory hmoved.not_directory
    · exact Or.inr hfile
  have hleads := hmoved.leads
  obtain rfl := hmoved.between_eq
  have hfile : (((host.disk.set (base' ++ [temporary]) (.file data)).erase (base' ++ [temporary])).set
      (base' ++ [name]) (.file data)).find? (base' ++ [name]) = some (.file data) :=
    find?_set_self _ (by simp) _
  have hplaced : Put (fun key content => content = data ∧
      ∃ base, host.disk.aim host.here true directory = some base ∧ key = base ++ [name])
      (host.disk.set (base' ++ [temporary]) (.file data))
      (((host.disk.set (base' ++ [temporary]) (.file data)).erase (base' ++ [temporary])).set
        (base' ++ [name]) (.file data)) := by
    intro key
    by_cases hkey : base' ++ [name] = key
    · subst hkey
      exact .written ⟨rfl, base', hbase', rfl⟩ hwritable hfile
    by_cases hsource : base' ++ [temporary] = key
    · subst hsource
      refine .temporary ⟨temporary, List.getLast?_concat, htemporary⟩
        (Or.inr ⟨data, find?_set_self host.disk (by simp) _⟩) (Or.inl ?_)
      rw [find?_set _ (by simp), if_neg hkey, find?_erase _ (by simp), if_pos rfl]
    · refine .spared (Or.inl ?_)
      rw [find?_set _ (by simp), if_neg hkey, find?_erase _ (by simp), if_neg hsource]
  refine ⟨rfl, ⟨_, hplaced.leads hleads hfile, hfile⟩,
    hput.of_none.trans (fun key content hwritten => ?_) hplaced⟩
  obtain ⟨-, base, -, rfl⟩ := hwritten
  exact not_temporaryKey hlasting base

/-- Renaming a temporary file into place fails and changes nothing, or is done. -/
lemma mayEnd_replaceThrough (tidy : Tidy host.disk host.here directory) (hdirectory : directory.Open)
    (hname : IsName name) (hlasting : ¬ IsTemporary name) (htemporary : IsName temporary)
    (hdigits : IsTemporary temporary) {result : Except Failure Path}
    (h : (replaceThrough (directory.join temporary) (directory.join name) data).MayEnd host result after) :
    after.here = host.here ∧
      ((∃ failure, result = .error failure) ∧ Put (fun _ _ => False) host.disk after.disk ∨
        result = .ok (directory.join name) ∧
          Filed host.disk host.here directory name data after.disk) := by
  have hne : name ≠ temporary := fun heq => hlasting (heq ▸ hdigits)
  obtain ⟨answer, between, hanswer, hrest⟩ := h.request_bind
  rcases wrought_of_overwrite tidy hdirectory htemporary hanswer with
    ⟨rfl, rfl⟩ | ⟨part, hwrought, hresult⟩
  · obtain ⟨rfl, rfl⟩ := hrest.of_fail
    exact ⟨rfl, Or.inl ⟨⟨_, rfl⟩, Put.refl _⟩⟩
  -- Both ways to fail from here on remove the temporary file again, or try to.
  have hgone : ∀ failure,
      (Program.request (.remove (directory.join temporary)) >>= fun _ =>
        (Program.fail failure : Program Path)).MayEnd between result after →
      after.here = host.here ∧ (∃ failure, result = .error failure) ∧
        Put (fun _ _ => False) host.disk after.disk := by
    intro failure hremove
    obtain ⟨answer, last, hanswer, hlast⟩ := hremove.request_bind
    obtain ⟨rfl, rfl⟩ := hlast.of_fail
    obtain ⟨hhere, hput⟩ := hwrought.removed hdigits hdirectory htemporary hanswer
    exact ⟨hhere, ⟨_, rfl⟩, hput⟩
  rcases hresult with ⟨rfl, rfl⟩ | rfl
  · obtain ⟨answer, placed, hanswer, hlast⟩ := hrest.request_bind
    have htidy : Tidy between.disk between.here directory := by
      have hhere : between.here = host.here := by
        obtain ⟨base, -, -, rfl⟩ := hwrought
        rfl
      rw [hhere]
      exact tidy.put (hwrought.put hdigits)
    rcases moved_of_rename hdirectory htemporary hname hne hanswer with
      ⟨⟨reason, rfl⟩, rfl⟩ | ⟨rfl, base, entry, hmoved⟩
    · obtain ⟨hhere, hfailed, hput⟩ := hgone _ hlast
      exact ⟨hhere, Or.inl ⟨hfailed, hput⟩⟩
    · obtain ⟨rfl, rfl⟩ := hlast.of_done
      obtain ⟨hhere, hfiled⟩ := hwrought.moved tidy hdigits hlasting hmoved
      exact ⟨hhere, Or.inr ⟨rfl, hfiled⟩⟩
  · obtain ⟨hhere, hfailed, hput⟩ := hgone _ hrest
    exact ⟨hhere, Or.inl ⟨hfailed, hput⟩⟩

/-- **A file is written whole or not at all**, whatever fails. -/
theorem mayEnd_writeAtomically (tidy : Tidy host.disk host.here directory) (hdirectory : directory.Open)
    (hname : IsName name) (hlasting : ¬ IsTemporary name) {result : Except Failure Path}
    (h : (writeAtomically (directory.join name) data).MayEnd host result after) :
    after.here = host.here ∧
      ((∃ failure, result = .error failure) ∧ Put (fun _ _ => False) host.disk after.disk ∨
        result = .ok (directory.join name) ∧
          Filed host.disk host.here directory name data after.disk) := by
  rcases h.bind with ⟨failure, hparent, rfl⟩ | ⟨_, furnished, hparent, hrest⟩
  · obtain ⟨hhere, hfurnished⟩ := mayEnd_ensureParent hparent
    exact ⟨hhere, Or.inl ⟨⟨failure, rfl⟩, .of_furnished hfurnished⟩⟩
  obtain ⟨hhere, hfurnished⟩ := mayEnd_ensureParent hparent
  obtain ⟨digits, drawn, hanswer, hreplace⟩ := hrest.request_bind
  obtain ⟨hdigits, hdisk, hhere'⟩ := digits_of_draws hanswer
  rw [temporaryPath_join hdirectory.toUnended hname] at hreplace
  have hput : Put (fun _ _ => False) host.disk drawn.disk := by
    rw [hdisk]
    exact .of_furnished hfurnished
  have hstand : drawn.here = host.here := hhere'.trans hhere
  have htidy : Tidy drawn.disk drawn.here directory := by
    rw [hstand]
    exact tidy.put hput
  -- The directories that were made put nothing in place; the rest is that of the temporary file.
  obtain ⟨hend, hfailed | ⟨rfl, hfiled⟩⟩ := mayEnd_replaceThrough htidy hdirectory hname hlasting
    (isName_temporaryName hname hdigits) ⟨name, digits, hdigits, rfl⟩ hreplace
  · refine ⟨hend.trans hstand, Or.inl ⟨hfailed.1, ?_⟩⟩
    exact hput.trans (fun _ _ hnever => hnever.elim) hfailed.2
  · refine ⟨hend.trans hstand, Or.inr ⟨rfl, hstand ▸ hfiled.has, ?_⟩⟩
    have hafter := hfiled.put
    rw [hstand] at hafter
    simp only [hput.aim_eq] at hafter
    refine hput.of_none.trans (fun key content hwritten => ?_) hafter
    obtain ⟨-, base, -, rfl⟩ := hwritten
    exact not_temporaryKey hlasting base

/-! ### Paths that are cut off

Behind a null byte all names are lost. A file below such a path would have to be where the directory above
it has just been made, so it is never opened.
-/

lemma resolve_of_ensureParent {path : Path} (hparent : path.parent.text ≠ [])
    (hname : IsName path.parent.fileName)
    (h : (ensureParent path).MayEnd host (.ok ()) between) :
    ∃ place, between.disk.resolve between.here true path.parent = .ok (.present place .directory) := by
  have hempty : ¬ path.parent.isEmpty = true := by
    rw [Path.isEmpty, List.isEmpty_iff]
    exact hparent
  rw [ensureParent, if_neg hempty] at h
  obtain ⟨answer, made, hanswer, hrest⟩ := h.request_bind
  cases answer with
  | some reason =>
    obtain ⟨hnever, -⟩ := hrest.of_fail
    cases hnever
  | none =>
    obtain ⟨-, rfl⟩ := hrest.of_done
    generalize hgranted : (none : Option Errno) = answer at hanswer
    cases hanswer with
    | granted =>
      exact makeDirectories_done hname.ne_nil hname.ne_dot hname.ne_up (Prod.ext hgranted.symm rfl)
    | failed h =>
      cases h with
      | makeDirectories => cases hgranted

lemma unopened_of_directory {path : Path} {place : Standing}
    (hresolve : host.disk.resolve host.here true path = .ok (.present place .directory))
    {result : WriteResult} (h : host.MayAnswer (.overwrite path data) result between) :
    result = .unopened ∧ between = host := by
  have hrefused : ∀ part, host.answer (.overwrite path part) = (.unopened, host) := by
    intro part
    simp [Host.answer, overwrite, writeBehind, hresolve]
  cases h with
  | granted => exact ⟨congrArg Prod.fst (hrefused data), congrArg Prod.snd (hrefused data)⟩
  | failed h =>
    cases h with
    | unopened => exact ⟨rfl, rfl⟩
    | cutShort _ opened => exact absurd (congrArg Prod.fst (hrefused _)) opened

/-- **No file is written behind a null byte**: only directories are made. -/
theorem mayEnd_writeAtomically_of_null (hdirectory : directory.Unended) (hnull : (0 : UInt8) ∈ directory.text)
    (hlast : IsName directory.fileName) (hname : IsName name) {result : Except Failure Path}
    (h : (writeAtomically (directory.join name) data).MayEnd host result after) :
    after.here = host.here ∧ (∃ failure, result = .error failure) ∧ Furnished host.disk after.disk := by
  have hparent : (directory.join name).parent = directory := hdirectory.parent_join hname
  rcases h.bind with ⟨failure, hmade, rfl⟩ | ⟨_, furnished, hmade, hrest⟩
  · obtain ⟨hhere, hfurnished⟩ := mayEnd_ensureParent hmade
    exact ⟨hhere, ⟨failure, rfl⟩, hfurnished⟩
  obtain ⟨hhere, hfurnished⟩ := mayEnd_ensureParent hmade
  obtain ⟨place, hplace⟩ := resolve_of_ensureParent (by rw [hparent]; exact hdirectory.ne_nil)
    (by rwa [hparent]) hmade
  rw [hparent] at hplace
  obtain ⟨digits, drawn, hanswer, hreplace⟩ := hrest.request_bind
  obtain ⟨hdigits, hdisk, hhere'⟩ := digits_of_draws hanswer
  rw [temporaryPath_join hdirectory hname] at hreplace
  obtain ⟨outcome, between, hwrite, hend⟩ := hreplace.request_bind
  rw [← hdisk, ← hhere', ← resolve_join_of_null (isName_temporaryName hname hdigits) hnull] at hplace
  obtain ⟨rfl, rfl⟩ := unopened_of_directory hplace hwrite
  obtain ⟨rfl, rfl⟩ := hend.of_fail
  exact ⟨hhere'.trans hhere, ⟨_, rfl⟩, hdisk ▸ hfurnished⟩

lemma opening_of_written {target path : Path} {data : Bytes}
    (h : (writeAtomically target data).MayEnd host (.ok path) after) : host.limits.opening = true := by
  rcases h.bind with ⟨failure, -, hnever⟩ | ⟨_, furnished, hparent, hrest⟩
  · cases hnever
  obtain ⟨digits, drawn, hdraws, hreplace⟩ := hrest.request_bind
  obtain ⟨outcome, between, hwrite, hend⟩ := hreplace.request_bind
  have hlimits : drawn.limits = host.limits :=
    (limits_of_mayAnswer hdraws).trans (limits_of_mayEnd hparent)
  by_contra hclosed
  rw [← hlimits, Bool.not_eq_true] at hclosed
  have hrefused : ∀ part, (drawn.answer (.overwrite (temporaryPath target digits) part)).1 = .unopened := by
    intro part
    simp [Host.answer, overwrite, writeBehind, hclosed]
  have hunopened : outcome = .unopened := by
    cases hwrite with
    | granted => exact hrefused data
    | failed hfails =>
      cases hfails with
      | unopened => rfl
      | cutShort _ opened => exact absurd (hrefused _) opened
  subst hunopened
  obtain ⟨hnever, -⟩ := hend.of_fail
  cases hnever

end Chronicle.Storage
