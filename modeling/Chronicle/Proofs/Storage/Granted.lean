import Chronicle.Proofs.Disk.Joined
import Chronicle.Proofs.Storage.AllOrNothing
import Chronicle.Proofs.Storage.Writing

/-!
Writes that are granted.

A directory that is there, or is made when it is asked for, takes a file under every name that is short
enough, if files can be opened and may grow. Then a file that is written whole is in its place afterwards, its
temporary file is gone, and nothing else has changed.
-/

namespace Chronicle

open Disk

/-! ### Operations -/

namespace Disk

variable {disk disk' : Disk} {here : Standing} {limits : Limits} {path source target directory : Path}
  {key sourceKey base : Key} {name : Bytes}

lemma writeBehind_of_leads (hopening : limits.opening = true) (hunlimited : limits.largestFile = none)
    (hleads : disk.Leads here true path key) (hwritable : disk.Writable key) {keep : Bytes → Bytes}
    (hkeep : keep [] = []) (data : Bytes) :
    disk.writeBehind here limits keep path data =
      (.written, disk.set key (.file (keep (disk.bytesAt key) ++ data))) := by
  unfold writeBehind grown bytesAt
  rw [hopening, hunlimited]
  rcases hwritable with hnone | ⟨content, hfile⟩
  · rw [hleads, placeAt, hnone]
    dsimp only
    rw [hkeep]
    rfl
  · rw [hleads.resolve_eq hfile, hfile]
    rfl

lemma lastName_join (hname : IsName name) (hnull : (0 : UInt8) ∉ directory.text) :
    lastName (directory.join name) = name := by
  refine lastName_eq ?_ hname.ne_nil
  rw [systemText_eq (hname.open_join hnull).no_null, Bytes.splitOn_getLast?]
  exact congrArg some (hname.fileName_join directory)

lemma rename_of_leads {content : Bytes} (hsource : disk.Leads here false source sourceKey)
    (hfile : disk.find? sourceKey = some (.file content)) (hname : IsName name)
    (hnull : (0 : UInt8) ∉ directory.text) (htarget : disk.Leads here false (directory.join name) key)
    (hfree : disk.find? key ≠ some .directory) (hne : key ≠ sourceKey) :
    disk.rename here source (directory.join name) =
      .ok ((disk.erase sourceKey).set key (.file content)) := by
  have hopen := hname.open_join hnull
  have hends : endsInName (directory.join name) = true := by
    simp [endsInName, lastName_join hname hnull, hname.ne_nil, hname.ne_dot, hname.ne_up]
  have htext : ¬ (directory.join name).text.isEmpty = true := by simpa using hopen.ne_nil
  have hplace : disk.resolve here false (directory.join name) = .ok (disk.placeAt key) := htarget
  unfold rename
  rw [hsource.resolve_eq hfile, systemText_eq hopen.no_null]
  simp only [bind, Except.bind, reduceCtorEq, if_false, if_neg htext, hends, Bool.not_true,
    Bool.false_eq_true, if_neg hopen.no_slash, hplace, placeAt]
  rcases hfind : disk.find? key with _ | entry
  · rfl
  · cases entry with
    | directory => exact absurd hfind hfree
    | _ => simp [hne, pure, Except.pure]

end Disk

namespace Storage

variable {host : Host} {made : Disk} {directory : Path} {base : Key} {name data : Bytes}

/-! ### Directories above a file -/

lemma runOn_ensureParent_of_status {path : Path}
    (hthere : path.parent.text ≠ [] → host.disk.status host.here path.parent = .ok ⟨.directory, 0⟩) :
    (ensureParent path).runOn host = (.ok (), host) := by
  unfold ensureParent
  by_cases hempty : path.parent.isEmpty = true
  · rw [if_pos hempty]
    rfl
  · rw [if_neg hempty, Program.runOn_request_bind]
    have hmade : host.disk.makeDirectories host.here path.parent = (none, host.disk) := by
      rw [makeDirectories, if_neg hempty, hthere (by simpa [Path.isEmpty] using hempty)]
      rfl
    rw [Host.answer, hmade]
    rfl

lemma runOn_ensureParent_of_opens (hfits : Fits directory name)
    (hopens : host.disk.Opens host.here directory base) :
    (ensureParent (directory.join name)).runOn host = (.ok (), host) :=
  runOn_ensureParent_of_status (hopens.status_parent hfits)

lemma furnished_of_ensureParent {path : Path}
    (h : (ensureParent path).runOn host = (.ok (), { host with disk := made })) :
    Furnished host.disk made := by
  obtain ⟨disk, hraised, hrun⟩ := runOn_ensureParent path host
  rw [h] at hrun
  rcases hrun with hdone | ⟨fault, hfailed⟩
  · have hdisk : made = disk := congrArg (fun result => result.2.disk) hdone
    exact hdisk ▸ hraised.furnished
  · cases hfailed

lemma there_or_nowhere (hfits : Fits directory name)
    (h : (ensureParent (directory.join name)).runOn host = (.ok (), { host with disk := made })) :
    host.disk = made ∨
      ∃ reason, host.disk.resolve host.here true (directory.join name) = .error reason := by
  by_cases hopens : ∃ base, host.disk.Opens host.here directory base
  · obtain ⟨base, hopens⟩ := hopens
    rw [runOn_ensureParent_of_opens hfits hopens] at h
    exact Or.inl (congrArg (fun result => result.2.disk) h)
  · exact Or.inr (resolve_join_of_not_opens hfits fun base hbase => hopens ⟨base, hbase⟩)

/-- A directory that can be written to: it is there, or it is made when it is asked for, and files in it can be
opened and may grow. -/
structure Grants (host : Host) (made : Disk) (directory : Path) (base : Key) : Prop where
  is_open : directory.Open
  opening : host.limits.opening = true
  unlimited : host.limits.largestFile = none
  granted : host.disk.makeDirectories host.here directory = (none, made)
  opens : made.Opens host.here directory base

lemma Grants.furnished (h : Grants host made directory base) : Furnished host.disk made := by
  have hmade := makeDirectories_furnished host.disk host.here directory
  rwa [h.granted] at hmade

lemma Grants.runOn_ensureParent (h : Grants host made directory base) (hname : IsName name) :
    (ensureParent (directory.join name)).runOn host = (.ok (), { host with disk := made }) := by
  have hparent := h.is_open.parent_join hname
  have hempty : ¬ directory.isEmpty = true := by simpa [Path.isEmpty] using h.is_open.ne_nil
  rw [ensureParent, hparent, if_neg hempty, Program.runOn_request_bind, Host.answer, h.granted]
  rfl

lemma grants_of_opens (hopen : directory.Open) (hopening : host.limits.opening = true)
    (hunlimited : host.limits.largestFile = none) (hfits : Fits directory name)
    (hopens : host.disk.Opens host.here directory base) : Grants host host.disk directory base where
  is_open := hopen
  opening := hopening
  unlimited := hunlimited
  granted := by
    have hthere := hopens.status_parent hfits
    rw [hopen.parent_join hfits.is_name] at hthere
    rw [makeDirectories, if_neg (by simpa [Path.isEmpty] using hopen.ne_nil), hthere hopen.ne_nil]
    rfl
  opens := hopens

/-! ### Files that are written whole -/

/-- A file has been put in place, and its temporary file is gone. -/
def Replaced (disk : Disk) (key temporary : Key) (data : Bytes) (after : Disk) : Prop :=
  ∀ other, after.find? other =
    if key = other then some (.file data) else if temporary = other then none else disk.find? other

lemma replaced_of_moved {disk : Disk} {key temporary : Key} (hkey : disk.Writable key)
    (htemporary : disk.Writable temporary) (data : Bytes) :
    Replaced disk key temporary data
      (((disk.set temporary (.file data)).erase temporary).set key (.file data)) :=
  find?_moved htemporary.ne_nil hkey.ne_nil (.file data)

lemma Replaced.kept {disk after : Disk} {key temporary : Key} (h : Replaced disk key temporary data after)
    (hkey : disk.Writable key) (htemporary : disk.Writable temporary) : Kept (fun _ => False) disk after := by
  refine Kept.of_entries fun other => ?_
  rw [h other]
  split
  · next heq =>
    subst heq
    exact Or.inr ⟨hkey.not_directory, Or.inl hkey.not_link, by simp⟩
  split
  · next heq =>
    subst heq
    exact Or.inr ⟨htemporary.not_directory, Or.inl htemporary.not_link, by simp⟩
  · exact Or.inl rfl

lemma Replaced.writable {disk after : Disk} {key temporary other : Key}
    (h : Replaced disk key temporary data after) (hother : disk.Writable other) : after.Writable other := by
  rw [Writable, h other]
  split
  · exact Or.inr ⟨data, rfl⟩
  split
  · exact Or.inl rfl
  · exact hother

lemma Replaced.outside {disk after : Disk} {temporary : Bytes} {key : Key}
    (h : Replaced disk (base ++ [name]) (base ++ [temporary]) data after)
    (hkey : ∀ other, key ≠ base ++ [other]) : after.find? key = disk.find? key := by
  rw [h key, if_neg (hkey name).symm, if_neg (hkey temporary).symm]

lemma Replaced.beside {disk after : Disk} {digits : List Nat} {other : Bytes}
    (h : Replaced disk (base ++ [name]) (base ++ [temporaryName name digits]) data after)
    (hne : other ≠ name) (hvisible : other.head? ≠ some Bytes.dot) :
    after.find? (base ++ [other]) = disk.find? (base ++ [other]) := by
  have hname : base ++ [name] ≠ base ++ [other] := by simpa using hne.symm
  have htemporary : base ++ [temporaryName name digits] ≠ base ++ [other] := by
    intro heq
    obtain rfl : temporaryName name digits = other := by simpa using heq
    rw [temporaryName_eq] at hvisible
    exact hvisible rfl
  rw [h, if_neg hname, if_neg htemporary]

lemma temporaryName_ne (name : Bytes) (digits : List Nat) : temporaryName name digits ≠ name := by
  intro heq
  have hlength := congrArg List.length heq
  rw [temporaryName_eq] at hlength
  simp only [List.length_append, List.length_cons] at hlength
  omega

/-- **A file is written whole** in a directory that can be written to. -/
theorem Grants.runOn_writeAtomically (h : Grants host made directory base) {temporary : Bytes}
    (htemporary : temporary = temporaryName name (Host.lastDigits temporaryDigits host.drawn))
    (hname : Fits directory name) (hfits : Fits directory temporary)
    (hfree : made.Writable (base ++ [name])) (hspare : made.Writable (base ++ [temporary])) (data : Bytes) :
    ∃ disk, Replaced made (base ++ [name]) (base ++ [temporary]) data disk ∧
      (writeAtomically (directory.join name) data).runOn host =
        (.ok (directory.join name), { host with disk, drawn := host.drawn + 1 }) := by
  have hnames : name ≠ temporary := by
    rw [htemporary]
    exact (temporaryName_ne name _).symm
  have hne : base ++ [name] ≠ base ++ [temporary] := by simpa using hnames
  have hpath : temporaryPath (directory.join name) (Host.lastDigits temporaryDigits host.drawn) =
      directory.join temporary := by
    rw [temporaryPath_join h.is_open.toUnended hname.is_name, htemporary]
  -- The temporary file is written,
  have hoverwrite : made.overwrite host.here host.limits (directory.join temporary) data =
      (.written, made.set (base ++ [temporary]) (.file data)) :=
    writeBehind_of_leads h.opening h.unlimited (h.opens.leads hfits fun _ => hspare.not_link) hspare rfl data
  have hopens := (hspare.kept_set data).opens h.opens
  have hfind : ∀ other, (made.set (base ++ [temporary]) (.file data)).find? other =
      if base ++ [temporary] = other then some (.file data) else made.find? other :=
    find?_set made hspare.ne_nil (.file data)
  -- and renamed into place.
  have hrename : (made.set (base ++ [temporary]) (.file data)).rename host.here (directory.join temporary)
      (directory.join name) = .ok (((made.set (base ++ [temporary]) (.file data)).erase
        (base ++ [temporary])).set (base ++ [name]) (.file data)) := by
    refine rename_of_leads (hopens.leads hfits fun hfollow => nomatch hfollow) ?_ hname.is_name hname.no_null
      (hopens.leads hname fun hfollow => nomatch hfollow) ?_ hne
    · rw [hfind, if_pos rfl]
    · rw [hfind, if_neg hne.symm]
      exact hfree.not_directory
  refine ⟨_, replaced_of_moved hfree hspare data, ?_⟩
  rw [writeAtomically, Program.runOn_bind, h.runOn_ensureParent hname.is_name]
  dsimp only
  rw [Program.runOn_request_bind, Host.answer]
  dsimp only
  rw [hpath, replaceThrough, Program.runOn_request_bind, Host.answer]
  dsimp only
  rw [hoverwrite]
  dsimp only
  rw [Program.runOn_request_bind, Host.answer]
  dsimp only
  rw [hrename]
  rfl

/-! ### Files of one directory -/

lemma length_lastDigits (count n : Nat) : (Host.lastDigits count n).length = count := by
  induction count generalizing n with
  | zero => rfl
  | succ count ih => rw [Host.lastDigits, List.length_append, ih, List.length_singleton]

/-- A directory that can be written to, with room for files of these names and for their temporary files. -/
structure Room (host : Host) (made : Disk) (directory : Path) (base : Key) (names : List Bytes) : Prop extends
    Grants host made directory base where
  fits : ∀ name ∈ names, Fits directory name
  temporary_fits : ∀ name ∈ names, ∀ digits : List Nat, (∀ digit ∈ digits, digit < 16) →
    digits.length = temporaryDigits → Fits directory (temporaryName name digits)
  free : ∀ name ∈ names, made.Writable (base ++ [name])
  spare : ∀ name ∈ names, ∀ digits, made.Writable (base ++ [temporaryName name digits])

/-- **Files are replaced one after the other**: there is room for the next one afterwards. -/
theorem Room.runOn_writeAtomically {names : List Bytes} (h : Room host made directory base names)
    (hname : name ∈ names) (data : Bytes) :
    ∃ disk digits, Replaced made (base ++ [name]) (base ++ [temporaryName name digits]) data disk ∧
      Room { host with disk, drawn := host.drawn + 1 } disk directory base names ∧
      (writeAtomically (directory.join name) data).runOn host =
        (.ok (directory.join name), { host with disk, drawn := host.drawn + 1 }) := by
  have hfits := h.temporary_fits name hname _ (lastDigits_lt temporaryDigits host.drawn)
    (length_lastDigits temporaryDigits host.drawn)
  obtain ⟨disk, hreplaced, hrun⟩ := h.toGrants.runOn_writeAtomically rfl (h.fits name hname) hfits
    (h.free name hname) (h.spare name hname _) data
  have hkept := hreplaced.kept (h.free name hname) (h.spare name hname _)
  have hagain : Grants { host with disk, drawn := host.drawn + 1 } disk directory base :=
    grants_of_opens h.is_open h.opening h.unlimited (h.fits name hname) (hkept.opens h.opens)
  refine ⟨disk, _, hreplaced, ?_, hrun⟩
  exact
    { hagain with
      fits := h.fits
      temporary_fits := h.temporary_fits
      free := fun other hother => hreplaced.writable (h.free other hother)
      spare := fun other hother digits => hreplaced.writable (h.spare other hother digits) }

end Storage

end Chronicle
