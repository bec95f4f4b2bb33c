import Chronicle.Proofs.Storage.Granted

/-!
Whole files under any path.

A path that ends in a name can start anywhere, repeat slashes, and go over dots, links and directories that
are still missing. Its temporary file has a longer name of its own, so writing through it is all or nothing
wherever the path ends: the target is a file with the data, or only directories above it have been made.
Where a path like `l/../l` goes over its target, the target itself is one of the directories to make.
-/

namespace Chronicle.Storage

open Disk

variable {host : Host} {disk raised after : Disk} {here : Standing} {path target : Path} {key : Key}
  {data : Bytes}

lemma isName_fileName (hnull : (0 : UInt8) ∉ path.text)
    (hname : path.fileName ∉ [[], [Bytes.dot], [Bytes.dot, Bytes.dot]]) : IsName path.fileName := by
  simp only [List.mem_cons, List.not_mem_nil, or_false, not_or] at hname
  refine ⟨hname.1, hname.2.1, hname.2.2, fun hslash => ?_, fun hzero => ?_⟩
  · rw [Path.fileName, List.mem_reverse] at hslash
    simpa using List.mem_takeWhile_imp hslash
  · rw [Path.fileName, List.mem_reverse] at hzero
    exact hnull (List.mem_reverse.mp ((List.takeWhile_prefix _).mem hzero))

/-- Nothing is where the temporary name of the next write leads. -/
def Unused (host : Host) (target : Path) : Prop :=
  ∀ key, host.disk.aim host.here false (nextTemporary host target) = some key → host.disk.find? key = none

/-- A temporary name that is not in use leads to a place of its own. -/
lemma Unused.aside (hunused : Unused host target) (hnull : (0 : UInt8) ∉ target.text)
    (hname : IsName target.fileName) :
    Aside host.disk host.here (nextTemporary host target) target where
  free key haim := Or.inl (hunused key haim)
  apart key haim htarget := by
    obtain ⟨directory, hdirectory, hjoin⟩ := exists_eq_join hname
    have hnull' : (0 : UInt8) ∉ directory.text := fun hmem => hnull (hdirectory.mem hmem)
    have hparent : (0 : UInt8) ∉ target.parent.text := by
      obtain ⟨count, htext⟩ := parent_join hname directory
      rw [← hjoin] at htext
      rw [htext] at hnull'
      exact fun hmem => hnull' (List.mem_append_left _ hmem)
    rw [hjoin] at htarget
    obtain ⟨base, hkey⟩ := aim_join_name hname hnull' htarget
    obtain ⟨base', hkey'⟩ :=
      aim_join_name (isName_temporaryName hname (lastDigits_lt temporaryDigits host.drawn)) hparent haim
    refine temporaryName_ne target.fileName (Host.lastDigits temporaryDigits host.drawn) ?_
    rw [hkey'] at hkey
    exact List.singleton_inj.mp (List.append_inj' hkey rfl).2

/-- The target is a file with the data, and besides it only directories above it are new. Its path finds the
data unless it goes over a link that was in the target's place. -/
structure Whole (disk : Disk) (here : Standing) (target : Path) (data : Bytes) (after : Disk)
    (place : Key) : Prop where
  aim_eq : disk.aim here false target = some place
  not_directory : disk.find? place ≠ some .directory
  holds : after.find? place = some (.file data)
  spared : ∀ key, key ≠ place → SparedFor disk here target.parent after key
  content?_eq : place ∉ disk.crossed here false target → after.content? here target = some data

lemma Landed.whole (h : Landed raised here target data after key)
    (hraised : Raised disk here target.parent raised) : Whole disk here target data after key := by
  have hkept : Kept (fun _ => False) disk raised := hraised.furnished.kept
  have hholds : after.find? key = some (.file data) := by rw [h.find?_eq, if_pos rfl]
  refine ⟨?_, fun hdirectory => ?_, hholds, fun other hne => ?_, fun hclear => ?_⟩
  · rw [← hkept.aim_eq fun _ _ => not_false]
    exact h.aim_eq
  · exact h.not_directory ((hraised key).spared.find?_eq hdirectory)
  · rw [SparedFor, h.find?_eq, if_neg hne.symm]
    exact hraised other
  · rw [← hkept.crossed_eq fun _ _ => not_false] at hclear
    exact Has.content?_eq ⟨key, h.leads_of_clear hclear, hholds⟩

/-- **A file is written whole or not at all**, whatever is on the disk and wherever the path leads. If the
write is granted, the target is a file with the data; if it is refused, every entry is what it was, unless
nothing was there and a directory above the target has been made. Either way no other entry has changed and
the temporary file is gone. -/
theorem writeAtomically_whole_or_nothing (hnull : (0 : UInt8) ∉ target.text)
    (hname : target.fileName ∉ [[], [Bytes.dot], [Bytes.dot, Bytes.dot]])
    (hunused : Unused host target) (data : Bytes) :
    ∃ disk drawn,
      (∀ key, host.disk.aim host.here false (nextTemporary host target) = some key →
        ∀ content, disk.find? key ≠ some (.file content)) ∧
      ((∃ place, Whole host.disk host.here target data disk place ∧
          (writeAtomically target data).runOn host = (.ok target, { host with disk, drawn })) ∨
        ∃ fault, Raised host.disk host.here target.parent disk ∧
          (writeAtomically target data).runOn host =
            (.error (.reported (FileFault.problem fault)), { host with disk, drawn })) := by
  have haside := hunused.aside hnull (isName_fileName hnull hname)
  have hgone : ∀ {disk key}, SparedFor host.disk host.here target.parent disk key →
      host.disk.aim host.here false (nextTemporary host target) = some key →
      ∀ content, disk.find? key ≠ some (.file content) := by
    intro disk key hspared haim content
    rcases hspared.spared.free (Or.inl (hunused key haim)) with hfree | hfree <;> simp [hfree]
  rcases haside.runOn_writeAtomically data with
    ⟨fault, disk, drawn, hraised, hrun⟩ | ⟨raised, disk, place, hraised, hlanded, hrun⟩
  · exact ⟨disk, drawn, fun key => hgone (hraised key), Or.inr ⟨fault, hraised, hrun⟩⟩
  · have hwhole := hlanded.whole hraised
    refine ⟨disk, host.drawn + 1, fun key haim => ?_, Or.inl ⟨place, hwhole, hrun⟩⟩
    have hne : key ≠ place := by
      rintro rfl
      exact haside.apart key haim hwhole.aim_eq
    exact hgone (hwhole.spared key hne) haim

/-- A host with an old file in a directory. -/
def withOldFile : Host where
  disk := ⟨[([utf8 "d"], .directory), ([utf8 "d", utf8 "f"], .file (utf8 "old"))]⟩

/-- A path to the old file, with a detour. -/
def roundabout : Path := Path.ofString "d/../d//f"

theorem writeAtomically_whole_or_nothing_old_file :
    (0 : UInt8) ∉ roundabout.text ∧ roundabout.fileName ∉ [[], [Bytes.dot], [Bytes.dot, Bytes.dot]] ∧
      Unused withOldFile roundabout ∧
      ∃ disk drawn,
        (∀ key, withOldFile.disk.aim withOldFile.here false (nextTemporary withOldFile roundabout) =
            some key → ∀ content, disk.find? key ≠ some (.file content)) ∧
        ((∃ place, Whole withOldFile.disk withOldFile.here roundabout (utf8 "new") disk place ∧
            (writeAtomically roundabout (utf8 "new")).runOn withOldFile =
              (.ok roundabout, { withOldFile with disk, drawn })) ∨
          ∃ fault, Raised withOldFile.disk withOldFile.here roundabout.parent disk ∧
            (writeAtomically roundabout (utf8 "new")).runOn withOldFile =
              (.error (.reported (FileFault.problem fault)), { withOldFile with disk, drawn })) := by
  have hnull : (0 : UInt8) ∉ roundabout.text := by decide
  have hname : roundabout.fileName ∉ [[], [Bytes.dot], [Bytes.dot, Bytes.dot]] := by decide
  have hunused : Unused withOldFile roundabout := by
    intro key hkey
    have haim : withOldFile.disk.aim withOldFile.here false (nextTemporary withOldFile roundabout) =
        some [utf8 "d", utf8 ".f.tmp-00000000"] := by decide +kernel
    obtain rfl := Option.some.inj (haim.symm.trans hkey)
    decide +kernel
  exact ⟨hnull, hname, hunused, writeAtomically_whole_or_nothing hnull hname hunused (utf8 "new")⟩

/-- A path that goes over its own target. -/
def overItself : Path := Path.ofString "l/../l"

/-- On an empty disk, writing through such a path fails, but not without a trace: the directory that was made
above the target is the target. -/
theorem failed_write_makes_target :
    (0 : UInt8) ∉ overItself.text ∧ overItself.fileName ∉ [[], [Bytes.dot], [Bytes.dot, Bytes.dot]] ∧
      Unused {} overItself ∧
      Disk.aim {} (.inside []) false overItself = some [utf8 "l"] ∧
      Disk.find? {} [utf8 "l"] = none ∧
      ((writeAtomically overItself (utf8 "x")).runOn {}).1 =
        .error (.reported (FileFault.replace overItself .isDirectory).problem) ∧
      ((writeAtomically overItself (utf8 "x")).runOn {}).2.disk.find? [utf8 "l"] = some .directory := by
  refine ⟨by decide, by decide, fun key hkey => ?_, by decide +kernel, by decide, by decide +kernel,
    by decide +kernel⟩
  have haim : Disk.aim {} (.inside []) false (nextTemporary {} overItself) =
      some [utf8 ".l.tmp-00000000"] := by decide +kernel
  obtain rfl := Option.some.inj (haim.symm.trans hkey)
  decide +kernel

end Chronicle.Storage
