import Chronicle.Proofs.Disk.Changes
import Chronicle.Proofs.System.Stops
import Chronicle.Storage.File

/-!
What writing a file does to a disk, and what is there if it is cut off.

A file is replaced by a rename, so at its place there is either what was there before or the whole new
content. Before the rename a temporary file has the new content or a part of it; a write that fails removes
it. Besides these two places only missing directories are touched.
-/

namespace Chronicle.Storage

open Disk

variable {host stopped : Host} {path temporary target : Path} {data : Bytes}

/-! ### Directories above a file -/

lemma runOn_ensureParent (path : Path) (host : Host) :
    ∃ disk, Raised host.disk host.here path.parent disk ∧
      ((ensureParent path).runOn host = (.ok (), { host with disk }) ∨
        ∃ fault, (ensureParent path).runOn host =
          (.error (.reported (FileFault.problem fault)), { host with disk })) := by
  unfold ensureParent
  split
  · exact ⟨host.disk, Raised.refl _ _ _, Or.inl rfl⟩
  · refine ⟨(host.disk.makeDirectories host.here path.parent).2,
      makeDirectories_raised _ _ _, ?_⟩
    rcases hanswer : (host.disk.makeDirectories host.here path.parent).1 with _ | reason
    · left
      simp [Program.runOn, Program.request, Program.run, Host.answer, hanswer, Program.pure_eq]
    · right
      refine ⟨.directory path.parent reason, ?_⟩
      simp [Program.runOn, Program.request, Program.run, Host.answer, hanswer, failWith,
        Program.report]

lemma stops_ensureParent (h : (ensureParent path).Stops host stopped) :
    ∃ disk, Furnished host.disk disk ∧ stopped = { host with disk } := by
  unfold ensureParent at h
  split at h
  · exact ⟨host.disk, Furnished.refl _, h.done⟩
  · rcases h.request_bind with hsame | htorn | hafter
    · exact ⟨host.disk, Furnished.refl _, hsame⟩
    · cases htorn
    · refine ⟨_, makeDirectories_furnished host.disk host.here path.parent, ?_⟩
      split at hafter
      · exact hafter.fail
      · exact hafter.done

/-! ### Replacing a file -/

/-- The temporary name leads to a place of its own where no file is. -/
structure Aside (disk : Disk) (here : Standing) (temporary target : Path) : Prop where
  free : ∀ key, disk.aim here false temporary = some key →
    disk.find? key = none ∨ disk.find? key = some .directory
  apart : ∀ key, disk.aim here false temporary = some key → disk.aim here false target ≠ some key

/-- Besides, the way to the target does not go over the target itself. -/
structure Ready (disk : Disk) (here : Standing) (temporary target : Path) : Prop extends
    Aside disk here temporary target where
  clear : ∀ link ∈ disk.crossed here false target, disk.aim here false target ≠ some link

/-- The target has the new content; nothing else has changed. The way to the target stays unless it goes over
the target itself. -/
structure Landed (disk : Disk) (here : Standing) (target : Path) (data : Bytes) (after : Disk)
    (key : Key) : Prop where
  aim_eq : disk.aim here false target = some key
  not_directory : disk.find? key ≠ some .directory
  find?_eq : ∀ other, after.find? other = if key = other then some (.file data) else disk.find? other
  leads_of_clear : key ∉ disk.crossed here false target → after.Leads here false target key

/-- The way to the target has stayed. -/
structure Placed (disk : Disk) (here : Standing) (target : Path) (data : Bytes) (after : Disk)
    (key : Key) : Prop extends Landed disk here target data after key where
  leads : after.Leads here false target key

/-- Nothing has changed, or there is a temporary file, or the target has the new content. -/
def Amid (disk : Disk) (here : Standing) (temporary target : Path) (data : Bytes) (after : Disk) : Prop :=
  ∀ key, after.find? key = disk.find? key ∨
    (disk.aim here false temporary = some key ∧ disk.find? key = none ∧
      ∃ part, after.find? key = some (.file part)) ∨
    (disk.aim here false target = some key ∧ disk.find? key ≠ some .directory ∧
      after.find? key = some (.file data))

variable {disk after : Disk} {here : Standing} {key : Key}

lemma Landed.placed (h : Landed disk here target data after key)
    (ready : Ready disk here temporary target) : Placed disk here target data after key :=
  ⟨h, h.leads_of_clear fun hlink => ready.clear key hlink h.aim_eq⟩

lemma Aside.endsOnNoLink (h : Aside disk here temporary target) :
    disk.EndsOnNoLink here temporary := by
  intro key target haim
  rcases h.free key haim with hfind | hfind <;> simp [hfind]

lemma Placed.kept (h : Placed disk here target data after key) {replaced : Key → Prop}
    (hkey : replaced key) : Kept replaced disk after := by
  refine Kept.of_entry (fun other hne => ?_) h.not_directory (Or.inr hkey) fun target => ?_
  · rw [h.find?_eq, if_neg hne]
  · simp [h.find?_eq]

lemma Placed.amid (h : Placed disk here target data after key) :
    Amid disk here temporary target data after := by
  intro other
  rw [h.find?_eq other]
  split
  · next heq =>
    subst heq
    exact Or.inr (Or.inr ⟨h.aim_eq, h.not_directory, rfl⟩)
  · exact Or.inl rfl

lemma Amid.kept (h : Amid disk here temporary target data after) {replaced : Key → Prop}
    (htarget : ∀ key, disk.aim here false target = some key → replaced key) :
    Kept replaced disk after := by
  refine Kept.of_entries fun key => ?_
  rcases h key with hsame | ⟨-, hnone, part, hpart⟩ | ⟨haim, hnot, hdata⟩
  · exact Or.inl hsame
  · exact Or.inr ⟨by simp [hnone], Or.inl (by simp [hnone]), by simp [hpart]⟩
  · exact Or.inr ⟨hnot, Or.inr (htarget key haim), by simp [hdata]⟩

lemma Aside.furnished (h : Aside disk here temporary target) (hafter : Furnished disk after) :
    Aside after here temporary target := by
  have hkept : Kept (fun _ => False) disk after := hafter.kept
  have haim : ∀ path, after.aim here false path = disk.aim here false path :=
    fun path => hkept.aim_eq fun _ _ => not_false
  refine ⟨fun key hkey => ?_, fun key hkey => ?_⟩
  · rw [haim] at hkey
    exact (hafter key).free (h.free key hkey)
  · rw [haim] at hkey ⊢
    exact h.apart key hkey

lemma Ready.furnished (h : Ready disk here temporary target) (hafter : Furnished disk after) :
    Ready after here temporary target := by
  have hkept : Kept (fun _ => False) disk after := hafter.kept
  refine ⟨h.toAside.furnished hafter, ?_⟩
  rw [hkept.aim_eq fun _ _ => not_false, hkept.crossed_eq fun _ _ => not_false]
  exact h.clear

/-- The temporary file that a write has made. -/
structure Temporary (disk : Disk) (here : Standing) (temporary : Path) (key : Key) : Prop where
  leads : disk.Leads here false temporary key
  free : disk.find? key = none
  plain : Plain (lastName temporary)

/-- Writing the temporary file is refused, or puts a part of the data where nothing was. -/
lemma answer_overwrite (aside : Aside host.disk host.here temporary target) (data : Bytes) :
    (host.answer (.overwrite temporary data)) = (.unopened, host) ∨
      ∃ result key part, Temporary host.disk host.here temporary key ∧ part <+: data ∧
        (result = .written ∧ part = data ∨ result = .cutShort) ∧
        host.answer (.overwrite temporary data) =
          (result, { host with disk := host.disk.set key (.file part) }) := by
  have hfollow := aside.endsOnNoLink.resolve_follow
  rcases writeBehind_cases host.disk host.here host.limits (fun _ => []) temporary data with
    ⟨hdisk, hunopened | ⟨place, hdevice, -⟩⟩ | ⟨key, part, hwrote⟩
  · left
    simp [Host.answer, overwrite, hdisk, hunopened]
  · -- No device can be at the place of the temporary name.
    rw [hfollow] at hdevice
    have hthere : host.disk.standingEntry place = some .fullDevice := resolve_isOn hdevice
    cases place with
    | detached parent => cases hthere
    | inside key =>
      have hfind : host.disk.find? key = some .fullDevice := hthere
      rcases aside.free key (aim_of_present hdevice) with hfree | hfree <;> rw [hfind] at hfree <;>
        cases hfree
  · right
    have hleads : host.disk.Leads host.here false temporary key := by
      rw [Leads, ← hfollow]
      exact hwrote.leads
    have hfree : host.disk.find? key = none :=
      (aside.free key hleads.aim_eq).resolve_right hwrote.writable.not_directory
    have habsent : host.disk.resolve host.here false temporary = .ok (.absent key false) := by
      rw [hleads, placeAt, hfree]
    have hplain : Plain (lastName temporary) := lastName_plain habsent
    have hdisk := hwrote.disk_eq
    rw [hfree] at hdisk
    refine ⟨_, key, part, ⟨hleads, hfree, hplain⟩, hwrote.part_prefix, hwrote.complete, ?_⟩
    simpa [Host.answer, overwrite] using hdisk

lemma Temporary.leads_set (h : Temporary disk here temporary key) (part : Bytes) :
    (disk.set key (.file part)).Leads here false temporary key := by
  have hkept : Kept (fun _ => False) disk (disk.set key (.file part)) :=
    Writable.kept_set (Or.inl h.free) part
  exact hkept.leads (fun _ _ => not_false) h.leads (find?_set_self disk (ne_nil_of_none h.free) _)

lemma Temporary.answer_remove (h : Temporary host.disk host.here temporary key) (part : Bytes) :
    ∃ after, (∀ other, after.find? other = host.disk.find? other) ∧
      Host.answer (.remove temporary) { host with disk := host.disk.set key (.file part) } =
        (none, { host with disk := after }) := by
  have hkey := ne_nil_of_none h.free
  have hremove := remove_eq (h.leads_set part) (find?_set_self host.disk hkey _) h.plain
  refine ⟨(host.disk.set key (.file part)).erase key, fun other => ?_, ?_⟩
  · rw [find?_erase _ hkey, find?_set _ hkey]
    split
    · next heq => rw [← heq, h.free]
    · rfl
  · simp [Host.answer, Host.withDisk, hremove]

/-- Renaming the temporary file is refused, or puts the data in place. -/
lemma Temporary.answer_rename (h : Temporary host.disk host.here temporary key)
    (aside : Aside host.disk host.here temporary target) (data : Bytes) :
    (∃ reason, Host.answer (.rename temporary target)
        { host with disk := host.disk.set key (.file data) } =
          (some reason, { host with disk := host.disk.set key (.file data) })) ∨
      ∃ after place, Landed host.disk host.here target data after place ∧
        Host.answer (.rename temporary target)
          { host with disk := host.disk.set key (.file data) } =
            (none, { host with disk := after }) := by
  have hkey := ne_nil_of_none h.free
  have hkept : Kept (fun _ => False) host.disk (host.disk.set key (.file data)) :=
    Writable.kept_set (Or.inl h.free) data
  rcases hrename : (host.disk.set key (.file data)).rename host.here temporary target with
    reason | after
  · exact Or.inl ⟨reason, by simp [Host.answer, Host.withDisk, hrename]⟩
  right
  obtain ⟨source, entry, place, hsource, -, hleads, hplace, hafter⟩ := rename_cases hrename
  obtain ⟨rfl, rfl⟩ : source = key ∧ entry = .file data := by
    have hthere := (h.leads_set data).resolve_eq (find?_set_self host.disk hkey _)
    rw [hsource] at hthere
    simpa using hthere
  have haim : host.disk.aim host.here false target = some place := by
    rw [← hkept.aim_eq fun _ _ => not_false]
    exact hleads.aim_eq
  -- The target is not the temporary file, so the rename takes the one to the other.
  have hne : place ≠ source := by
    rintro rfl
    exact aside.apart place h.leads.aim_eq haim
  obtain ⟨-, rfl⟩ := hafter.resolve_left fun heq => hne heq.1
  have hplace' : host.disk.find? place ≠ some .directory := by
    rwa [find?_set _ hkey, if_neg fun heq => hne heq.symm] at hplace
  have hroot : place ≠ [] := by
    rintro rfl
    exact hplace' (find?_nil _)
  have hfind : ∀ other, (((host.disk.set source (.file data)).erase source).set place
      (.file data)).find? other =
        if place = other then some (.file data) else host.disk.find? other := by
    intro other
    rw [find?_moved hkey hroot]
    split
    · rfl
    split
    · next heq => rw [← heq, h.free]
    · rfl
  refine ⟨_, place, ⟨haim, hplace', hfind, fun hclear => ?_⟩,
    by simp [Host.answer, Host.withDisk, hrename]⟩
  have hgone : Kept (fun other => place = other) (host.disk.set source (.file data))
      ((host.disk.set source (.file data)).erase source) :=
    Writable.kept_erase (Or.inr ⟨data, find?_set_self host.disk hkey _⟩)
  have hnot : ((host.disk.set source (.file data)).erase source).find? place ≠ some .directory := by
    rwa [find?_erase _ hkey, if_neg fun heq => hne heq.symm]
  have hreplaced := hgone.trans (kept_set_file hnot (Or.inr rfl) data)
  refine hreplaced.leads (fun link hlink heq => ?_) hleads (by rw [hfind, if_pos rfl])
  rw [hkept.crossed_eq fun _ _ => not_false] at hlink
  exact hclear (heq ▸ hlink)

/-- **Renaming a file into place** leaves every entry as it was, or puts the data in place. -/
theorem Aside.runOn_replaceThrough (aside : Aside host.disk host.here temporary target) (data : Bytes) :
    (∃ fault disk, (∀ key, disk.find? key = host.disk.find? key) ∧
      (replaceThrough temporary target data).runOn host =
        (.error (.reported (FileFault.problem fault)), { host with disk })) ∨
    ∃ disk key, Landed host.disk host.here target data disk key ∧
      (replaceThrough temporary target data).runOn host = (.ok target, { host with disk }) := by
  rw [replaceThrough, Program.runOn_request_bind]
  rcases answer_overwrite aside data with hrefused | ⟨result, key, part, htemporary, -, hresult, hanswer⟩
  · left
    refine ⟨.openTemporary temporary, host.disk, fun _ => rfl, ?_⟩
    rw [hrefused]
    rfl
  rw [hanswer]
  -- All the data was written, or the temporary file is removed again.
  rcases hresult with ⟨rfl, rfl⟩ | rfl
  · dsimp only
    rw [Program.runOn_request_bind]
    rcases htemporary.answer_rename aside part with ⟨reason, hrename⟩ | ⟨disk, place, hlanded, hrename⟩
    · left
      obtain ⟨disk, hdisk, hremove⟩ := htemporary.answer_remove part
      refine ⟨.replace target reason, disk, hdisk, ?_⟩
      rw [hrename]
      dsimp only
      rw [Program.runOn_request_bind, hremove]
      rfl
    · right
      refine ⟨disk, place, hlanded, ?_⟩
      rw [hrename]
      rfl
  · left
    obtain ⟨disk, hdisk, hremove⟩ := htemporary.answer_remove part
    refine ⟨.writeTemporary temporary, disk, hdisk, ?_⟩
    dsimp only
    rw [Program.runOn_request_bind, hremove]
    rfl

lemma amid_of_same (h : ∀ key, after.find? key = disk.find? key) :
    Amid disk here temporary target data after :=
  fun key => Or.inl (h key)

lemma Temporary.amid (h : Temporary disk here temporary key) (part : Bytes) :
    Amid disk here temporary target data (disk.set key (.file part)) := by
  intro other
  rw [find?_set disk (ne_nil_of_none h.free)]
  split
  · next heq =>
    subst heq
    exact Or.inr (Or.inl ⟨h.leads.aim_eq, h.free, part, rfl⟩)
  · exact Or.inl rfl

lemma amid_of_overwrite (ready : Ready host.disk host.here temporary target) (part : Bytes) :
    ∃ disk, Amid host.disk host.here temporary target data disk ∧
      (host.answer (.overwrite temporary part)).2 = { host with disk } := by
  rcases answer_overwrite ready.toAside part with
    hrefused | ⟨result, key, part', htemporary, -, -, hanswer⟩
  · exact ⟨host.disk, amid_of_same fun _ => rfl, by rw [hrefused]⟩
  · exact ⟨_, htemporary.amid part', by rw [hanswer]⟩

/-- **At no time while a file is replaced** is anything else at its place than before or the data. -/
theorem stops_replaceThrough (host : Host) (ready : Ready host.disk host.here temporary target)
    (h : (replaceThrough temporary target data).Stops host stopped) :
    ∃ disk, Amid host.disk host.here temporary target data disk ∧ stopped = { host with disk } := by
  rw [replaceThrough] at h
  rcases h.request_bind with hsame | htorn | h
  · exact ⟨host.disk, amid_of_same fun _ => rfl, hsame⟩
  · cases htorn with
    | overwrite => exact amid_of_overwrite ready _
  rcases answer_overwrite ready.toAside data with
    hrefused | ⟨result, key, part, htemporary, -, hresult, hanswer⟩
  · rw [hrefused] at h
    exact ⟨host.disk, amid_of_same fun _ => rfl, h.fail⟩
  rw [hanswer] at h
  have hwritten : ∃ disk, Amid host.disk host.here temporary target data disk ∧
      { host with disk := host.disk.set key (.file part) } = { host with disk } :=
    ⟨_, htemporary.amid part, rfl⟩
  -- Removing the temporary file brings everything back to what it was.
  have hremoved : ∀ next : Program Path, (∀ final, next.Stops final stopped → stopped = final) →
      (Program.request (.remove temporary) >>= fun _ => next).Stops
        { host with disk := host.disk.set key (.file part) } stopped →
      ∃ disk, Amid host.disk host.here temporary target data disk ∧ stopped = { host with disk } := by
    intro next hnext hremove
    obtain ⟨disk, hdisk, hanswer'⟩ := htemporary.answer_remove part
    rcases hremove.request_bind with hsame | htorn | hlast
    · rwa [hsame]
    · cases htorn
    · rw [hanswer'] at hlast
      exact ⟨disk, amid_of_same hdisk, hnext _ hlast⟩
  rcases hresult with ⟨rfl, rfl⟩ | rfl
  · dsimp only at h
    rcases h.request_bind with hsame | htorn | h
    · rwa [hsame]
    · cases htorn
    rcases htemporary.answer_rename ready.toAside part with
      ⟨reason, hrename⟩ | ⟨disk, place, hlanded, hrename⟩
    · rw [hrename] at h
      exact hremoved _ (fun _ hfail => hfail.fail) h
    · rw [hrename] at h
      exact ⟨disk, (hlanded.placed ready).amid, h.done⟩
  · exact hremoved _ (fun _ hfail => hfail.fail) h

/-- The temporary name that the next write beside a target will use. -/
def nextTemporary (host : Host) (target : Path) : Path :=
  temporaryPath target (Host.lastDigits temporaryDigits host.drawn)

/-- The host is ready for the next write to a target. -/
def ReadyFor (host : Host) (target : Path) : Prop :=
  Ready host.disk host.here (nextTemporary host target) target

/-- **Writing a file whole** fails, and then only directories above it have been made, or puts the data
where the path ends. -/
theorem Aside.runOn_writeAtomically
    (aside : Aside host.disk host.here (nextTemporary host target) target) (data : Bytes) :
    (∃ fault disk drawn, Raised host.disk host.here target.parent disk ∧
      (writeAtomically target data).runOn host =
        (.error (.reported (FileFault.problem fault)), { host with disk, drawn })) ∨
    ∃ raised disk key, Raised host.disk host.here target.parent raised ∧
      Landed raised host.here target data disk key ∧
      (writeAtomically target data).runOn host =
        (.ok target, { host with disk, drawn := host.drawn + 1 }) := by
  obtain ⟨raised, hraised, hparent | ⟨fault, hparent⟩⟩ := runOn_ensureParent target host
  · have hrun : (writeAtomically target data).runOn host =
        (replaceThrough (nextTemporary host target) target data).runOn
          { host with disk := raised, drawn := host.drawn + 1 } := by
      rw [writeAtomically, Program.runOn_bind, hparent]
      rfl
    rw [hrun]
    let drawn : Host := { host with disk := raised, drawn := host.drawn + 1 }
    have haside : Aside drawn.disk drawn.here (nextTemporary host target) target :=
      aside.furnished hraised.furnished
    rcases haside.runOn_replaceThrough data with ⟨fault, disk, hdisk, hfail⟩ | ⟨disk, key, hlanded, hdone⟩
    · refine Or.inl ⟨fault, disk, host.drawn + 1, fun key => ?_, hfail⟩
      rw [SparedFor, hdisk]
      exact hraised key
    · exact Or.inr ⟨raised, disk, key, hraised, hlanded, hdone⟩
  · refine Or.inl ⟨fault, raised, host.drawn, hraised, ?_⟩
    rw [writeAtomically, Program.runOn_bind, hparent]

/-- So it is, with the way to the file, for a target that its own path does not go over. -/
theorem runOn_writeAtomically (ready : ReadyFor host target) (data : Bytes) :
    (∃ fault disk drawn, Furnished host.disk disk ∧
      (writeAtomically target data).runOn host =
        (.error (.reported (FileFault.problem fault)), { host with disk, drawn })) ∨
    ∃ furnished disk key, Furnished host.disk furnished ∧
      Placed furnished host.here target data disk key ∧
      (writeAtomically target data).runOn host =
        (.ok target, { host with disk, drawn := host.drawn + 1 }) := by
  rcases ready.toAside.runOn_writeAtomically data with
    ⟨fault, disk, drawn, hraised, hrun⟩ | ⟨raised, disk, key, hraised, hlanded, hrun⟩
  · exact Or.inl ⟨fault, disk, drawn, hraised.furnished, hrun⟩
  · exact Or.inr ⟨raised, disk, key, hraised.furnished,
      hlanded.placed (ready.furnished hraised.furnished), hrun⟩

/-- **While a file is written whole** there is at its place what was there before, or the data. -/
theorem stops_writeAtomically (ready : ReadyFor host target)
    (h : (writeAtomically target data).Stops host stopped) :
    stopped.here = host.here ∧ ∃ furnished, Furnished host.disk furnished ∧
      Amid furnished host.here (nextTemporary host target) target data stopped.disk := by
  rcases h.bind with hparent | ⟨_, between, hparent, h⟩
  · obtain ⟨disk, hdisk, rfl⟩ := stops_ensureParent hparent
    exact ⟨rfl, disk, hdisk, amid_of_same fun _ => rfl⟩
  obtain ⟨furnished, hraised, hparent' | ⟨fault, hparent'⟩⟩ := runOn_ensureParent target host
  have hfurnished := hraised.furnished
  · rw [hparent'] at hparent
    cases hparent
    rcases h.request_bind with rfl | htorn | h
    · exact ⟨rfl, furnished, hfurnished, amid_of_same fun _ => rfl⟩
    · cases htorn
    · have hready : Ready furnished host.here (nextTemporary host target) target :=
        ready.furnished hfurnished
      obtain ⟨disk, hamid, rfl⟩ := stops_replaceThrough
        { host with disk := furnished, drawn := host.drawn + 1 } hready h
      exact ⟨rfl, furnished, hfurnished, hamid⟩
  · rw [hparent'] at hparent
    cases hparent

/-! ### Adding to a file -/

/-- A part of the data is behind what was in the file where a path leads. -/
structure Extended (disk : Disk) (here : Standing) (path : Path) (part : Bytes) (after : Disk)
    (key : Key) : Prop where
  leads : disk.Leads here true path key
  writable : disk.Writable key
  disk_eq : after = disk.set key (.file (disk.bytesAt key ++ part))

/-- Adding to a file is refused, or puts a part of the data behind its content. -/
lemma answer_append (host : Host) (path : Path) (data : Bytes) :
    ∃ result, (result = .written → data = []) ∧ host.answer (.append path data) = (result, host) ∨
      ∃ disk key part, part <+: data ∧ (result = .written → part = data) ∧
        Extended host.disk host.here path part disk key ∧
        host.answer (.append path data) = (result, { host with disk }) := by
  refine ⟨(host.answer (.append path data)).1, ?_⟩
  rcases writeBehind_cases host.disk host.here host.limits id path data with
    ⟨hdisk, hresult⟩ | ⟨key, part, hwrote⟩
  · left
    refine ⟨fun hwritten => ?_, ?_⟩
    · rcases hresult with hunopened | ⟨-, -, hdevice⟩
      · exact absurd (hunopened.symm.trans hwritten) (by simp)
      · exact hdevice hwritten
    · simp only [Host.answer, append, hdisk]
  · right
    refine ⟨_, key, part, hwrote.part_prefix, fun hwritten => ?_,
      ⟨hwrote.leads, hwrote.writable, hwrote.disk_eq⟩, rfl⟩
    rcases hwrote.complete with ⟨-, hpart⟩ | hcut
    · exact hpart
    · exact absurd (hwritten.symm.trans hcut) (by simp)

/-- **Adding to a file** fails, or puts the data behind its content. -/
theorem runOn_appendTo (host : Host) (path : Path) {data : Bytes} (hdata : data ≠ []) :
    (∃ fault after, (appendTo path data).runOn host =
      (.error (.reported (FileFault.problem fault)), after)) ∨
    ∃ furnished disk key, Furnished host.disk furnished ∧
      Extended furnished host.here path data disk key ∧
      (appendTo path data).runOn host = (.ok path, { host with disk }) := by
  obtain ⟨furnished, hraised, hparent | ⟨fault, hparent⟩⟩ := runOn_ensureParent path host
  have hfurnished := hraised.furnished
  · rw [appendTo, Program.runOn_bind, hparent]
    dsimp only
    rw [Program.runOn_request_bind]
    obtain ⟨result, ⟨hnothing, hanswer⟩ | ⟨disk, key, part, -, hpart, hextended, hanswer⟩⟩ :=
      answer_append { host with disk := furnished } path data
    · left
      rw [hanswer]
      cases result with
      | unopened => exact ⟨_, _, rfl⟩
      | cutShort => exact ⟨_, _, rfl⟩
      | written => exact absurd (hnothing rfl) hdata
    · rw [hanswer]
      cases result with
      | unopened => exact Or.inl ⟨_, _, rfl⟩
      | cutShort => exact Or.inl ⟨_, _, rfl⟩
      | written =>
        obtain rfl := hpart rfl
        exact Or.inr ⟨furnished, disk, key, hfurnished, hextended, rfl⟩
  · refine Or.inl ⟨fault, { host with disk := furnished }, ?_⟩
    rw [appendTo, Program.runOn_bind, hparent]

/-- **While a file is added to**, a beginning of the data is behind its content at most. -/
theorem stops_appendTo (h : (appendTo path data).Stops host stopped) :
    stopped = { host with disk := stopped.disk } ∧ ∃ furnished, Furnished host.disk furnished ∧
      (stopped.disk = furnished ∨ ∃ key part, part <+: data ∧
        Extended furnished host.here path part stopped.disk key) := by
  rcases h.bind with hparent | ⟨_, between, hparent, h⟩
  · obtain ⟨disk, hdisk, rfl⟩ := stops_ensureParent hparent
    exact ⟨rfl, disk, hdisk, Or.inl rfl⟩
  obtain ⟨furnished, hraised, hparent' | ⟨fault, hparent'⟩⟩ := runOn_ensureParent path host
  have hfurnished := hraised.furnished
  · rw [hparent'] at hparent
    cases hparent
    have hanswer : ∀ {part : Bytes}, part <+: data →
        stopped = (Host.answer (.append path part) { host with disk := furnished }).2 →
        stopped = { host with disk := stopped.disk } ∧ ∃ furnished, Furnished host.disk furnished ∧
          (stopped.disk = furnished ∨ ∃ key part, part <+: data ∧
            Extended furnished host.here path part stopped.disk key) := by
      rintro part hpart rfl
      obtain ⟨result, ⟨-, hanswer⟩ | ⟨disk, key, part', hpart', -, hextended, hanswer⟩⟩ :=
        answer_append { host with disk := furnished } path part
      · rw [hanswer]
        exact ⟨rfl, furnished, hfurnished, Or.inl rfl⟩
      · rw [hanswer]
        exact ⟨rfl, furnished, hfurnished, Or.inr ⟨key, part', hpart'.trans hpart, hextended⟩⟩
    -- The write has not begun, or it is cut off with a part of the data, or it is done.
    rcases h.request_bind with rfl | htorn | h
    · exact ⟨rfl, furnished, hfurnished, Or.inl rfl⟩
    · cases htorn with
      | append hpart => exact hanswer hpart rfl
    · refine hanswer (List.prefix_refl data) ?_
      split at h
      · exact h.fail
      · exact h.fail
      · exact h.done
  · rw [hparent'] at hparent
    cases hparent

end Chronicle.Storage
