import Chronicle.Proofs.Bytes.Split
import Chronicle.Proofs.Disk.Way
import Mathlib.Logic.Function.Iterate
import Mathlib.Tactic.ByContra

/-!
What each operation does to a disk.

An operation that is given a path changes at most the entry at the place where the path leads; renaming
changes two. Making directories puts them where nothing was. None of them adds a link, and no directory is
ever lost to a write or a rename, so the ways of all other paths stay.
-/

namespace Chronicle.Disk

variable {disk disk' : Disk} {here : Standing} {follow : Bool} {path : Path} {key : Key}
  {replaced : Key → Prop}

/-! ### Single entries -/

/-- The bytes of the file at a place, none where there is no file. -/
def bytesAt (disk : Disk) (key : Key) : Bytes :=
  match disk.find? key with
  | some (.file content) => content
  | _ => []

/-- A place where a file can be written: there is a file, or nothing. -/
def Writable (disk : Disk) (key : Key) : Prop :=
  disk.find? key = none ∨ ∃ content, disk.find? key = some (.file content)

lemma bytesAt_of_file {content : Bytes} (h : disk.find? key = some (.file content)) :
    disk.bytesAt key = content := by
  rw [bytesAt, h]

lemma bytesAt_congr (h : disk'.find? key = disk.find? key) : disk'.bytesAt key = disk.bytesAt key := by
  rw [bytesAt, h, bytesAt]

lemma exists_file_of_bytesAt (h : disk.bytesAt key ≠ []) :
    disk.find? key = some (.file (disk.bytesAt key)) := by
  unfold bytesAt at h ⊢
  split
  · next hfind => exact hfind
  · next hother =>
    split at h
    · next content hfind => exact absurd hfind (hother content)
    · exact absurd rfl h

lemma Writable.ne_nil (h : disk.Writable key) : key ≠ [] := by
  rintro rfl
  rcases h with h | ⟨content, h⟩ <;> rw [find?_nil] at h <;> cases h

lemma ne_nil_of_none (h : disk.find? key = none) : key ≠ [] :=
  Writable.ne_nil (Or.inl h)

lemma Writable.not_directory (h : disk.Writable key) : disk.find? key ≠ some .directory := by
  rcases h with h | ⟨content, h⟩ <;> simp [h]

lemma Writable.not_link (h : disk.Writable key) (target : Bytes) :
    disk.find? key ≠ some (.link target) := by
  rcases h with h | ⟨content, h⟩ <;> simp [h]

lemma kept_set_file (hnot : disk.find? key ≠ some .directory)
    (hkey : (∀ target, disk.find? key ≠ some (.link target)) ∨ replaced key) (content : Bytes) :
    Kept replaced disk (disk.set key (.file content)) := by
  have hroot : key ≠ [] := by
    rintro rfl
    exact hnot (find?_nil disk)
  refine Kept.of_entry (fun other hne => ?_) hnot hkey fun target => ?_
  · rw [find?_set disk hroot, if_neg hne]
  · simp [find?_set_self disk hroot]

lemma Writable.kept_set (h : disk.Writable key) (content : Bytes) :
    Kept replaced disk (disk.set key (.file content)) :=
  kept_set_file h.not_directory (Or.inl h.not_link) content

lemma Writable.kept_erase (h : disk.Writable key) : Kept replaced disk (disk.erase key) := by
  refine Kept.of_entry (fun other hne => ?_) h.not_directory (Or.inl h.not_link) fun target => ?_
  · rw [find?_erase _ h.ne_nil, if_neg hne]
  · simp [find?_erase _ h.ne_nil]

/-- What becomes of the entries when one is made in one place and moved to another. -/
lemma find?_moved {source : Key} (hsource : source ≠ []) (hkey : key ≠ []) (entry : Entry) (other : Key) :
    (((disk.set source entry).erase source).set key entry).find? other =
      if key = other then some entry else if source = other then none else disk.find? other := by
  rw [find?_set _ hkey, find?_erase _ hsource, find?_set _ hsource]
  split
  · rfl
  split <;> rfl

/-- The bytes of the file that a path ends on, or none. -/
def foundBytes : Except Errno Place → Bytes
  | .ok (.present _ (.file content)) => content
  | _ => []

lemma getD_content? (disk : Disk) (here : Standing) (path : Path) :
    (disk.content? here path).getD [] = foundBytes (disk.resolve here true path) := by
  unfold content? read
  simp only [Bool.not_true, Bool.false_eq_true, if_false]
  rcases disk.resolve here true path with reason | place
  · rfl
  · cases place with
    | absent key trailing => rfl
    | present place entry => cases entry <;> rfl

lemma content?_eq {content : Bytes} (hleads : disk.Leads here true path key)
    (hfind : disk.find? key = some (.file content)) : disk.content? here path = some content := by
  simp [content?, read, hleads.resolve_eq hfind]

/-- A path leads to a file with this content, and not to a link to it. -/
def Has (disk : Disk) (here : Standing) (path : Path) (content : Bytes) : Prop :=
  ∃ key, disk.Leads here false path key ∧ disk.find? key = some (.file content)

lemma Has.content?_eq {content : Bytes} (h : disk.Has here path content) :
    disk.content? here path = some content := by
  obtain ⟨key, hleads, hfind⟩ := h
  have hend : disk.EndsOnNoLink here path := by
    intro key' target haim
    rw [hleads.aim_eq, Option.some.injEq] at haim
    simp [← haim, hfind]
  have hfollow : disk.Leads here true path key := by
    rw [Leads, hend.resolve_follow]
    exact hleads
  exact Disk.content?_eq hfollow hfind

/-! ### Directories that are made -/

/-- An entry is as before, or a directory has been made where nothing was. -/
def Spared (disk disk' : Disk) (key : Key) : Prop :=
  disk'.find? key = disk.find? key ∨ disk.find? key = none ∧ disk'.find? key = some .directory

namespace Spared

lemma refl (disk : Disk) (key : Key) : Spared disk disk key := Or.inl rfl

lemma trans {disk'' : Disk} (h : Spared disk disk' key) (h' : Spared disk' disk'' key) :
    Spared disk disk'' key := by
  rcases h with hsame | ⟨hnone, hmade⟩ <;> rcases h' with hsame' | ⟨hnone', hmade'⟩
  · exact Or.inl (hsame'.trans hsame)
  · exact Or.inr ⟨hsame ▸ hnone', hmade'⟩
  · exact Or.inr ⟨hnone, hsame'.trans hmade⟩
  · rw [hmade] at hnone'
    cases hnone'

lemma find?_eq (h : Spared disk disk' key) {entry : Entry} (hentry : disk.find? key = some entry) :
    disk'.find? key = some entry := by
  rcases h with hsame | ⟨hnone, -⟩
  · rw [hsame, hentry]
  · rw [hnone] at hentry
    cases hentry

lemma bytesAt_eq (h : Spared disk disk' key) : disk'.bytesAt key = disk.bytesAt key := by
  rcases h with hsame | ⟨hnone, hmade⟩
  · exact bytesAt_congr hsame
  · rw [bytesAt, hmade, bytesAt, hnone]

lemma free (h : Spared disk disk' key)
    (hfree : disk.find? key = none ∨ disk.find? key = some .directory) :
    disk'.find? key = none ∨ disk'.find? key = some .directory := by
  rcases h with hsame | ⟨-, hmade⟩
  · rwa [hsame]
  · exact Or.inr hmade

end Spared

/-- The second disk has what the first one has, and directories where nothing was. -/
def Furnished (disk disk' : Disk) : Prop := ∀ key, Spared disk disk' key

lemma Furnished.refl (disk : Disk) : Furnished disk disk := Spared.refl disk

lemma Furnished.trans {disk'' : Disk} (h : Furnished disk disk') (h' : Furnished disk' disk'') :
    Furnished disk disk'' :=
  fun key => (h key).trans (h' key)

lemma Furnished.kept (h : Furnished disk disk') : Kept replaced disk disk' := by
  refine Kept.of_entries fun key => ?_
  rcases h key with hsame | ⟨hnone, hmade⟩
  · exact Or.inl hsame
  · exact Or.inr ⟨by simp [hnone], Or.inl (by simp [hnone]), by simp [hmade]⟩

lemma Furnished.set (h : disk.find? key = none) : Furnished disk (disk.set key .directory) := by
  intro other
  rw [Spared, find?_set disk (ne_nil_of_none h)]
  split
  · next heq => exact Or.inr ⟨heq ▸ h, rfl⟩
  · exact Or.inl rfl

lemma makeDirectory_cases (h : disk.makeDirectory here path = .ok disk') :
    ∃ key, disk.aim here false path = some key ∧ disk.find? key = none ∧
      disk' = disk.set key .directory := by
  unfold makeDirectory at h
  split at h
  · cases h
  · cases h
  · next key trailing hresolve =>
    cases h
    exact ⟨key, aim_eq_some.mpr (goal_of_resolve hresolve), resolve_isOn hresolve, rfl⟩

lemma ensureDirectory_cases (h : disk.ensureDirectory here path = .ok disk') :
    disk' = disk ∨ ∃ key, disk.aim here false path = some key ∧ disk.find? key = none ∧
      disk' = disk.set key .directory := by
  unfold ensureDirectory at h
  split at h
  · next hmade =>
    cases h
    exact Or.inr (makeDirectory_cases hmade)
  · split at h
    · cases h
      exact Or.inl rfl
    · cases h

/-- An entry is as before, or nothing was there and a directory has been made for a path: there the path
ends, or a path above it. -/
def SparedFor (disk : Disk) (here : Standing) (path : Path) (disk' : Disk) (key : Key) : Prop :=
  disk'.find? key = disk.find? key ∨
    disk.find? key = none ∧ disk'.find? key = some .directory ∧
      ∃ steps, disk.aim here false (Path.parent^[steps] path) = some key

lemma SparedFor.spared (h : SparedFor disk here path disk' key) : Spared disk disk' key :=
  h.imp_right fun hmade => ⟨hmade.1, hmade.2.1⟩

/-- Paths above go on to end where they did while directories are made. -/
lemma SparedFor.trans {disk'' : Disk} (hmade : Furnished disk disk')
    (h : SparedFor disk here path disk' key) (h' : SparedFor disk' here path disk'' key) :
    SparedFor disk here path disk'' key := by
  have hkept : Kept (fun _ => False) disk disk' := hmade.kept
  rcases h with hsame | ⟨hnone, hdirectory, habove⟩
  · rcases h' with hsame' | ⟨hnone', hdirectory', steps, haim⟩
    · exact Or.inl (hsame'.trans hsame)
    · rw [hkept.aim_eq fun _ _ => not_false] at haim
      exact Or.inr ⟨hsame ▸ hnone', hdirectory', steps, haim⟩
  · exact Or.inr ⟨hnone, h'.spared.find?_eq hdirectory, habove⟩

/-- Nothing has changed but that directories have been made for a path. -/
def Raised (disk : Disk) (here : Standing) (path : Path) (disk' : Disk) : Prop :=
  ∀ key, SparedFor disk here path disk' key

lemma Raised.refl (disk : Disk) (here : Standing) (path : Path) : Raised disk here path disk :=
  fun _ => Or.inl rfl

lemma Raised.furnished (h : Raised disk here path disk') : Furnished disk disk' :=
  fun key => (h key).spared

lemma Raised.trans {disk'' : Disk} (h : Raised disk here path disk') (h' : Raised disk' here path disk'') :
    Raised disk here path disk'' :=
  fun key => (h key).trans h.furnished (h' key)

lemma ensureDirectory_raised {steps : Nat}
    (h : disk.ensureDirectory here (Path.parent^[steps] path) = .ok disk') : Raised disk here path disk' := by
  rcases ensureDirectory_cases h with rfl | ⟨place, haim, hnone, rfl⟩
  · exact Raised.refl _ _ _
  · intro key
    rw [SparedFor, find?_set disk (ne_nil_of_none hnone)]
    split
    · next heq => exact Or.inr ⟨heq ▸ hnone, rfl, steps, heq ▸ haim⟩
    · exact Or.inl rfl

lemma ensureAll_raised {paths : List Path} (hpaths : ∀ up ∈ paths, ∃ steps, up = Path.parent^[steps] path)
    (disk : Disk) : Raised disk here path (ensureAll here paths disk).2 := by
  induction paths generalizing disk with
  | nil => exact Raised.refl _ _ _
  | cons up rest ih =>
    rw [ensureAll]
    split
    · next made hmade =>
      obtain ⟨steps, rfl⟩ := hpaths up List.mem_cons_self
      exact (ensureDirectory_raised hmade).trans
        (ih (fun other hother => hpaths other (List.mem_cons_of_mem _ hother)) made)
    · exact Raised.refl _ _ _

/-- All directories to make are above the one that is asked for. -/
lemma missingDirectories_above {steps : Nat} {inner missing : List Path}
    (h : disk.missingDirectories here steps path inner = .ok missing) :
    ∀ up ∈ missing, up ∈ inner ∨ ∃ count, up = Path.parent^[count] path := by
  induction steps generalizing path inner with
  | zero => cases h
  | succ steps ih =>
    rw [missingDirectories] at h
    have hmore : ∀ up ∈ (if path.fileName == [Bytes.dot] || path.fileName == [Bytes.dot, Bytes.dot]
        then inner else path :: inner), up ∈ inner ∨ ∃ count, up = Path.parent^[count] path := by
      intro up hup
      split at hup
      · exact Or.inl hup
      · rcases List.mem_cons.mp hup with rfl | hinner
        · exact Or.inr ⟨0, rfl⟩
        · exact Or.inl hinner
    -- From here on it does not matter how they were collected.
    generalize (if path.fileName == [Bytes.dot] || path.fileName == [Bytes.dot, Bytes.dot] then inner
      else path :: inner) = more at h hmore
    split at h
    · cases h
    split at h
    · cases h
      exact hmore
    split at h
    · split at h
      · cases h
        exact hmore
      · cases h
    · split at h
      · intro up hup
        rcases ih h up hup with hmem | ⟨count, rfl⟩
        · exact hmore up hmem
        · exact Or.inr ⟨count + 1, rfl⟩
      · cases h

/-- **Making directories** only puts directories where nothing was, on the way to the one asked for. -/
theorem makeDirectories_raised (disk : Disk) (here : Standing) (path : Path) :
    Raised disk here path (disk.makeDirectories here path).2 := by
  unfold makeDirectories
  split
  · exact Raised.refl _ _ _
  split
  · exact Raised.refl _ _ _
  split
  · dsimp only
    split
    · next missing hmissing =>
      refine ensureAll_raised (fun up hup => ?_) disk
      obtain ⟨count, rfl⟩ := (missingDirectories_above hmissing up hup).resolve_left List.not_mem_nil
      split
      · exact ⟨count + 1, rfl⟩
      · exact ⟨count, rfl⟩
    · exact Raised.refl _ _ _
  · exact Raised.refl _ _ _

theorem makeDirectories_furnished (disk : Disk) (here : Standing) (path : Path) :
    Furnished disk (disk.makeDirectories here path).2 :=
  (makeDirectories_raised disk here path).furnished

/-! ### Files that are written -/

lemma grown_cases (limits : Limits) (content data : Bytes) :
    ∃ part, part <+: data ∧ (grown limits content data).2 = content ++ part ∧
      ((grown limits content data).1 = .written ∧ part = data ∨
        (grown limits content data).1 = .cutShort) := by
  unfold grown
  cases limits.largestFile with
  | none => exact ⟨data, List.prefix_refl data, rfl, Or.inl ⟨rfl, rfl⟩⟩
  | some largest =>
    refine ⟨data.take (largest - content.length), List.take_prefix _ data, rfl, ?_⟩
    dsimp only
    split
    · next hroom => exact Or.inl ⟨rfl, List.take_of_length_le hroom⟩
    · exact Or.inr rfl

/-- What a write did: a beginning of the data was put behind what the file keeps. -/
structure Wrote (disk : Disk) (here : Standing) (path : Path) (keep : Bytes → Bytes) (data : Bytes)
    (result : WriteResult) (disk' : Disk) (key : Key) (part : Bytes) : Prop where
  leads : disk.Leads here true path key
  writable : disk.Writable key
  part_prefix : part <+: data
  complete : result = .written ∧ part = data ∨ result = .cutShort
  disk_eq : disk' = disk.set key
    (.file ((match disk.find? key with
      | some (.file content) => keep content
      | _ => []) ++ part))

/-- **A write** puts data into the file where the path leads, or leaves the disk alone. If it claims
to be done although no file was there for it, there was a device, and no data. -/
theorem writeBehind_cases (disk : Disk) (here : Standing) (limits : Limits) (keep : Bytes → Bytes)
    (path : Path) (data : Bytes) :
    (disk.writeBehind here limits keep path data).2 = disk ∧
        ((disk.writeBehind here limits keep path data).1 = .unopened ∨
          ∃ place, disk.resolve here true path = .ok (.present place .fullDevice) ∧
            ((disk.writeBehind here limits keep path data).1 = .written → data = [])) ∨
      ∃ key part, Wrote disk here path keep data
        (disk.writeBehind here limits keep path data).1
        (disk.writeBehind here limits keep path data).2 key part := by
  unfold writeBehind
  split
  · exact Or.inl ⟨rfl, Or.inl rfl⟩
  split
  · next key content hresolve =>
    have hfind : disk.find? key = some (.file content) := resolve_isOn hresolve
    obtain ⟨part, hpart, hcontent, hresult⟩ := grown_cases limits (keep content) data
    refine Or.inr ⟨key, part, leads_of_present hresolve, Or.inr ⟨content, hfind⟩, hpart, ?_, ?_⟩
    · exact hresult
    · simp only [hfind, hcontent]
  · next place hresolve =>
    refine Or.inl ⟨rfl, Or.inr ⟨place, hresolve, fun hwritten => ?_⟩⟩
    dsimp only at hwritten
    split at hwritten
    · next hempty => exact List.isEmpty_iff.mp hempty
    · cases hwritten
  · next key hresolve =>
    have hfind : disk.find? key = none := resolve_isOn hresolve
    obtain ⟨part, hpart, hcontent, hresult⟩ := grown_cases limits [] data
    refine Or.inr ⟨key, part, leads_of_absent hresolve, Or.inl hfind, hpart, ?_, ?_⟩
    · exact hresult
    · simp only [hfind, hcontent]
  · exact Or.inl ⟨rfl, Or.inl rfl⟩

/-- **Cutting** a file keeps its first bytes, if it has as many. -/
theorem truncate_cases {size : Nat} (h : disk.truncate here path size = .ok disk') :
    ∃ key content, disk.resolve here true path = .ok (.present (.inside key) (.file content)) ∧
      disk' = disk.set key
        (.file (content.take size ++ List.replicate (size - content.length) 0)) := by
  unfold truncate at h
  split at h
  · cases h
  · next key content hresolve =>
    cases h
    exact ⟨key, content, hresolve, rfl⟩
  all_goals cases h

/-! ### Last names

A path leads to a free name only if that is its own last name: a link that is the last name is not
followed, and names behind a link on the way are the path's own.
-/

lemma walkNames_absent {onLink : Key → Bytes → List Bytes → Except Errno Place} {trailing : Bool}
    (hlink : ∀ parent target rest, rest ≠ [] →
      onLink parent target rest = .ok (.absent key trailing) →
      ∃ last, rest.getLast? = some last ∧ if trailing then last = [] else Plain last)
    {names : List Bytes}
    (h : disk.walkNames false onLink here names = .ok (.absent key trailing)) :
    ∃ last, names.getLast? = some last ∧ if trailing then last = [] else Plain last := by
  induction names generalizing here with
  | nil =>
    rw [walkNames] at h
    split at h <;> cases h
  | cons name rest ih =>
    -- Whatever the first name does, the last one of the rest decides.
    have hbehind : (∃ last, rest.getLast? = some last ∧ if trailing then last = [] else Plain last) →
        ∃ last, (name :: rest).getLast? = some last ∧ if trailing then last = [] else Plain last := by
      rintro ⟨last, hlast, hkind⟩
      cases rest with
      | nil => cases hlast
      | cons next rest => exact ⟨last, by rwa [List.getLast?_cons_cons], hkind⟩
    by_cases hhere : disk.standingEntry here ≠ some .directory
    · obtain ⟨-, entry, -, hplace⟩ := walkNames_behind hhere h
      cases hplace
    rw [not_not] at hhere
    by_cases hname : ¬ Plain name
    · rw [walkNames_cons hhere hname] at h
      split at h
      · exact hbehind (ih h)
      split at h
      · exact hbehind (ih h)
      · cases h
    rw [not_not] at hname
    cases here with
    | detached parent =>
      rw [walkNames_detached hname] at h
      cases h
    | inside parent =>
      rw [walkNames_name hhere hname] at h
      rcases hfind : disk.find? (parent ++ [name]) with _ | entry
      · rw [hfind] at h
        dsimp only at h
        split at h
        · next hempty =>
          simp only [Except.ok.injEq, Place.absent.injEq] at h
          obtain ⟨-, rfl⟩ := h
          rcases List.eq_nil_or_concat rest with rfl | ⟨front, last, rfl⟩
          · exact ⟨name, rfl, hname⟩
          · have hlast : last = [] := List.isEmpty_iff.mp (List.all_eq_true.mp hempty last (by simp))
            exact ⟨last, by simp [List.getLast?_cons], by simpa using hlast⟩
        · cases h
      · cases entry with
        | link target =>
          rw [hfind] at h
          dsimp only at h
          split at h
          · cases h
          · next hmore =>
            refine hbehind (hlink _ _ _ ?_ h)
            rintro rfl
            exact hmore rfl
        | _ =>
          rw [hfind] at h
          exact hbehind (ih h)

lemma resolveNames_absent {links : Nat} {names : List Bytes} {trailing : Bool}
    (h : disk.resolveNames false links here names = .ok (.absent key trailing)) :
    ∃ last, names.getLast? = some last ∧ if trailing then last = [] else Plain last := by
  induction links generalizing here names with
  | zero =>
    refine walkNames_absent (fun _ _ _ _ hlink => ?_) h
    cases hlink
  | succ links ih =>
    refine walkNames_absent (fun _ _ rest hmore hlink => ?_) h
    obtain ⟨last, hlast, hkind⟩ := ih hlink
    obtain ⟨front, behind, rfl⟩ := (List.eq_nil_or_concat rest).resolve_left hmore
    refine ⟨last, ?_, hkind⟩
    simpa using hlast

lemma resolve_absent {trailing : Bool}
    (h : disk.resolve here false path = .ok (.absent key trailing)) :
    ∃ last, (Bytes.splitOn Bytes.slash (systemText path)).getLast? = some last ∧
      if trailing then last = [] else Plain last := by
  unfold resolve at h
  dsimp only at h
  split at h
  · cases h
  split at h
  · cases h
  exact resolveNames_absent h

lemma lastName_eq {last : Bytes}
    (h : (Bytes.splitOn Bytes.slash (systemText path)).getLast? = some last) (hlast : last ≠ []) :
    lastName path = last := by
  rw [Bytes.splitOn_getLast?, Option.some.injEq] at h
  have hfront : (systemText path).reverse.dropWhile (· == Bytes.slash) =
      (systemText path).reverse := by
    rcases htext : (systemText path).reverse with _ | ⟨b, rest⟩
    · rfl
    · have hb : (b == Bytes.slash) = false := by
        by_contra hslash
        have hslash' : b = Bytes.slash := by simpa using hslash
        rw [htext, hslash', List.takeWhile_cons_of_neg (by simp)] at h
        exact hlast h.symm
      rw [List.dropWhile_cons, hb]
      rfl
  rw [lastName, Path.trimEnd, hfront, List.reverse_reverse, Path.fileName, h]

lemma lastName_plain (h : disk.resolve here false path = .ok (.absent key false)) :
    Plain (lastName path) := by
  obtain ⟨last, hlast, hplain⟩ := resolve_absent h
  have hplain : Plain last := hplain
  have hne : last ≠ [] := by
    rintro rfl
    exact hplain.not_dot rfl
  rwa [lastName_eq hlast hne]

lemma leads_of_absent_unended {trailing : Bool}
    (hslash : (systemText path).getLast? ≠ some Bytes.slash)
    (h : disk.resolve here false path = .ok (.absent key trailing)) :
    disk.Leads here false path key := by
  obtain ⟨last, hlast, hkind⟩ := resolve_absent h
  cases trailing with
  | false => exact leads_of_absent h
  | true =>
    have hempty : last = [] := hkind
    subst hempty
    rw [Bytes.splitOn_getLast?, Option.some.injEq] at hlast
    rcases htext : (systemText path).reverse with _ | ⟨b, rest⟩
    · have hnil : systemText path = [] := List.reverse_eq_nil_iff.mp htext
      unfold resolve at h
      simp [hnil] at h
    · have hb : b ≠ Bytes.slash := by
        rintro rfl
        refine hslash ?_
        rw [← List.reverse_reverse (systemText path), htext, List.getLast?_reverse]
        rfl
      rw [htext, List.takeWhile_cons_of_pos (by simpa using hb)] at hlast
      simp at hlast

/-! ### Names that are moved and removed -/

/-- **Moving** takes an entry that is no directory from its place to the place of another name, where no
directory is. -/
theorem rename_cases {source target : Path} (h : disk.rename here source target = .ok disk') :
    ∃ sourceKey entry key,
      disk.resolve here false source = .ok (.present (.inside sourceKey) entry) ∧
      entry ≠ .directory ∧ disk.Leads here false target key ∧
      disk.find? key ≠ some .directory ∧
      (key = sourceKey ∧ disk' = disk ∨
        key ≠ sourceKey ∧ disk' = (disk.erase sourceKey).set key entry) := by
  unfold rename at h
  rcases hsource : disk.resolve here false source with reason | place
  · simp only [hsource, bind, Except.bind] at h
    cases h
  rw [hsource] at h
  simp only [bind, Except.bind] at h
  split at h
  case h_2 => cases h
  next sourceKey entry =>
  split at h
  · cases h
  next hentry =>
  split at h
  · cases h
  split at h
  · cases h
  split at h
  · cases h
  next hslash =>
  split at h
  · cases h
  next htarget =>
  refine ⟨sourceKey, entry, ?_⟩
  split at h
  · cases h
  · next key old hold =>
    have hleads : disk.Leads here false target key := leads_of_present htarget
    have hfind : disk.find? key = some old := resolve_isOn htarget
    refine ⟨key, rfl, hentry, hleads, ?_, ?_⟩
    · rw [hfind]
      simpa using hold
    · split at h
      · next heq =>
        cases h
        exact Or.inl ⟨heq, rfl⟩
      · next hne =>
        cases h
        exact Or.inr ⟨hne, rfl⟩
  · cases h
  · next key trailing =>
    have hfind : disk.find? key = none := resolve_isOn htarget
    -- The place of the source is taken, that of the target is free.
    have hne : key ≠ sourceKey := by
      rintro rfl
      have hthere : disk.find? key = some entry := resolve_isOn hsource
      rw [hfind] at hthere
      cases hthere
    refine ⟨key, rfl, hentry, leads_of_absent_unended hslash htarget, ?_, Or.inr ⟨hne, ?_⟩⟩
    · simp [hfind]
    · cases h
      rfl

/-- **Removing** takes away the entry where a path leads. -/
theorem remove_cases (h : disk.remove here path = .ok disk') :
    ∃ key entry, disk.resolve here false path = .ok (.present (.inside key) entry) ∧ key ≠ [] ∧
      disk' = disk.erase key := by
  unfold remove at h
  rcases hresolve : disk.resolve here false path with reason | place
  · simp only [hresolve, bind, Except.bind] at h
    cases h
  rw [hresolve] at h
  simp only [bind, Except.bind] at h
  split at h
  · cases h
  · cases h
  · next key entry =>
    split at h
    · cases h
    next hkey =>
    split at h
    · cases h
    split at h
    · cases h
    split at h
    · cases h
    · cases h
      exact ⟨key, entry, rfl, fun hnil => hkey (by rw [hnil]; rfl), rfl⟩

lemma remove_ne_noEntry {entry : Entry} (hleads : disk.Leads here false path key)
    (hfind : disk.find? key = some entry) : disk.remove here path ≠ .error .noEntry := by
  simp only [remove, hleads.resolve_eq hfind, bind, Except.bind]
  split
  · simp
  split
  · simp
  split
  · simp
  split
  · simp
  · exact fun h => nomatch h

lemma remove_eq {content : Bytes} (hleads : disk.Leads here false path key)
    (hfile : disk.find? key = some (.file content)) (hname : Plain (lastName path)) :
    disk.remove here path = .ok (disk.erase key) := by
  have hkey : key.isEmpty = false := by
    have hne : key ≠ [] := Writable.ne_nil (Or.inr ⟨content, hfile⟩)
    simpa using hne
  have hdot : (lastName path == [Bytes.dot]) = false := by
    have hnot := hname.not_dot
    simp only [Bool.or_eq_true, not_or] at hnot
    simpa using hnot.2
  have hup : (lastName path == [Bytes.dot, Bytes.dot]) = false := by
    simpa using hname.not_up
  simp [remove, hleads.resolve_eq hfile, bind, Except.bind, hkey, hdot, hup]
  rfl

end Chronicle.Disk
