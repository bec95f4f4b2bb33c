import Chronicle.Proofs.Disk.Names
import Chronicle.Storage.File

/-!
What files that are put in place do to a disk.

Whole files are written under names of their own, through temporary files whose names end in random
digits, and missing directories are made. Whatever else is on the disk stays, and so do the ways of paths;
the relation between the disk before and after is transitive, so it describes any number of writes.
-/

namespace Chronicle.Storage

open Disk

variable {disk disk' disk'' : Disk} {here : Standing} {path directory : Path} {key : Key} {name : Bytes}
  {written written' : Key → Bytes → Prop}

/-! ### Temporary names -/

/-- The name of a temporary file beside a file. -/
def temporaryName (name : Bytes) (digits : List Nat) : Bytes :=
  utf8 "." ++ name ++ utf8 "." ++ Ident.short (utf8 "tmp") digits

/-- A name that a temporary file can have. -/
def IsTemporary (name : Bytes) : Prop :=
  ∃ target digits, (∀ digit ∈ digits, digit < 16) ∧ name = temporaryName target digits

/-- A place of a temporary file. -/
def TemporaryKey (key : Key) : Prop := ∃ name, key.getLast? = some name ∧ IsTemporary name

lemma temporaryPath_join (h : directory.Unended) (hname : IsName name) (digits : List Nat) :
    temporaryPath (directory.join name) digits = directory.join (temporaryName name digits) := by
  rw [temporaryPath, h.parent_join hname, hname.fileName_join, temporaryName]

lemma hexDigit_ne : ∀ digit < 16, Bytes.hexDigit digit ≠ Bytes.slash ∧ Bytes.hexDigit digit ≠ 0 ∧
    Bytes.hexDigit digit ≠ Bytes.dot ∧ Bytes.hexDigit digit ≠ 110 := by decide

lemma temporaryName_eq (name : Bytes) (digits : List Nat) :
    temporaryName name digits =
      Bytes.dot :: name ++ [Bytes.dot, 116, 109, 112, Bytes.dash] ++ digits.map Bytes.hexDigit := by
  have hdot : utf8 "." = [Bytes.dot] := rfl
  have htmp : utf8 "tmp" = [116, 109, 112] := rfl
  have hdash : utf8 "-" = [Bytes.dash] := rfl
  simp [temporaryName, Ident.short, Ident.digits, hdot, htmp, hdash]

lemma isName_temporaryName (hname : IsName name) {digits : List Nat}
    (hdigits : ∀ digit ∈ digits, digit < 16) : IsName (temporaryName name digits) := by
  have hmem : ∀ b ∈ digits.map Bytes.hexDigit, b ≠ Bytes.slash ∧ b ≠ 0 := by
    intro b hb
    obtain ⟨digit, hdigit, rfl⟩ := List.mem_map.mp hb
    have hne := hexDigit_ne digit (hdigits digit hdigit)
    exact ⟨hne.1, hne.2.1⟩
  rw [temporaryName_eq]
  refine ⟨by simp, fun hdot => ?_, fun hup => ?_, fun hslash => ?_, fun hnull => ?_⟩
  · have hlength := congrArg List.length hdot
    simp at hlength
  · have hlength := congrArg List.length hup
    simp at hlength
    omega
  · simp only [List.cons_append, List.mem_cons, List.mem_append, List.not_mem_nil, or_false] at hslash
    rcases hslash with hdot | (hin | htmp) | hdigit
    · cases hdot
    · exact hname.no_slash hin
    · revert htmp
      decide
    · exact (hmem _ hdigit).1 rfl
  · simp only [List.cons_append, List.mem_cons, List.mem_append, List.not_mem_nil, or_false] at hnull
    rcases hnull with hdot | (hin | htmp) | hdigit
    · cases hdot
    · exact hname.no_null hin
    · revert htmp
      decide
    · exact (hmem _ hdigit).2 rfl

lemma not_isTemporary (h : name.getLast? = some 110) : ¬ IsTemporary name := by
  rintro ⟨target, digits, hdigits, rfl⟩
  rw [temporaryName_eq] at h
  rcases List.eq_nil_or_concat digits with rfl | ⟨front, digit, rfl⟩
  · rw [List.map_nil, List.append_nil, List.getLast?_append] at h
    cases h
  · rw [List.concat_eq_append, List.map_append, List.map_singleton, ← List.append_assoc,
      List.getLast?_concat, Option.some.injEq] at h
    exact (hexDigit_ne digit (hdigits digit (by simp))).2.2.2 h

lemma not_temporaryKey (h : ¬ IsTemporary name) (base : Key) : ¬ TemporaryKey (base ++ [name]) := by
  rintro ⟨last, hlast, htemporary⟩
  rw [List.getLast?_concat, Option.some.injEq] at hlast
  exact h (hlast ▸ htemporary)

/-! ### Disks with new files -/

/-- Nothing, a directory or a file: neither a link nor a device. -/
def Ordinary (disk : Disk) (key : Key) : Prop :=
  disk.find? key = none ∨ disk.find? key = some .directory ∨
    ∃ content, disk.find? key = some (.file content)

lemma Ordinary.not_link (h : Ordinary disk key) (target : Bytes) :
    disk.find? key ≠ some (.link target) := by
  rcases h with h | h | ⟨content, h⟩ <;> simp [h]

/-- What became of an entry: it was spared, or a temporary file came or went, or a file was put there. -/
inductive Altered (written : Key → Bytes → Prop) (disk disk' : Disk) (key : Key) : Prop
  | spared (h : Spared disk disk' key)
  | temporary (temporary : TemporaryKey key) (before : disk.Writable key) (after : Ordinary disk' key)
  | written {content : Bytes} (h : written key content) (before : disk.Writable key)
      (after : disk'.find? key = some (.file content))

/-- Files were put in place, and nothing else has changed but temporary files and new directories. -/
def Put (written : Key → Bytes → Prop) (disk disk' : Disk) : Prop :=
  ∀ key, Altered written disk disk' key

lemma Ordinary.spared (h : Ordinary disk key) (hspared : Spared disk disk' key) :
    Ordinary disk' key := by
  rcases hspared with hsame | ⟨-, hmade⟩
  · simpa only [Ordinary, hsame] using h
  · exact Or.inr (Or.inl hmade)

lemma writable_of_spared (h : disk'.Writable key) (hspared : Spared disk disk' key) :
    disk.Writable key := by
  rcases hspared with hsame | ⟨hnone, -⟩
  · simpa only [Writable, hsame] using h
  · exact Or.inl hnone

lemma Altered.ordinary (h : Altered written disk disk' key) (hkey : Ordinary disk key) :
    Ordinary disk' key := by
  cases h with
  | spared h => exact hkey.spared h
  | temporary _ _ after => exact after
  | written _ _ after => exact Or.inr (Or.inr ⟨_, after⟩)

/-- One change after another is one change, if no file that is put in place has a temporary name. -/
lemma Altered.trans (hwritten : ∀ content, written key content → ¬ TemporaryKey key)
    (h : Altered written disk disk' key) (h' : Altered written disk' disk'' key) :
    Altered written disk disk'' key := by
  cases h' with
  | spared h' =>
    cases h with
    | spared h => exact .spared (h.trans h')
    | temporary temporary before after => exact .temporary temporary before (after.spared h')
    | written h before after => exact .written h before (h'.find?_eq after)
  | temporary temporary before' after' =>
    cases h with
    | spared h => exact .temporary temporary (writable_of_spared before' h) after'
    | temporary _ before _ => exact .temporary temporary before after'
    | written h _ _ => exact absurd temporary (hwritten _ h)
  | written h' before' after' =>
    cases h with
    | spared h => exact .written h' (writable_of_spared before' h) after'
    | temporary _ before _ => exact .written h' before after'
    | written _ before _ => exact .written h' before after'

lemma Altered.mono (hwritten : ∀ content, written key content → written' key content)
    (h : Altered written disk disk' key) : Altered written' disk disk' key := by
  cases h with
  | spared h => exact .spared h
  | temporary temporary before after => exact .temporary temporary before after
  | written h before after => exact .written (hwritten _ h) before after

namespace Put

lemma of_furnished (h : Furnished disk disk') : Put written disk disk' := fun key => .spared (h key)

lemma refl (disk : Disk) : Put written disk disk := of_furnished (Furnished.refl disk)

lemma trans (hwritten : ∀ key content, written key content → ¬ TemporaryKey key)
    (h : Put written disk disk') (h' : Put written disk' disk'') : Put written disk disk'' :=
  fun key => (h key).trans (hwritten key) (h' key)

lemma mono (hwritten : ∀ key content, written key content → written' key content)
    (h : Put written disk disk') : Put written' disk disk' :=
  fun key => (h key).mono (hwritten key)

lemma of_none (h : Put (fun _ _ => False) disk disk') : Put written disk disk' :=
  h.mono fun _ _ hnever => hnever.elim

lemma kept (h : Put written disk disk') : Kept (fun _ => False) disk disk' := by
  refine Kept.of_entries fun key => ?_
  cases h key with
  | spared h =>
    rcases h with hsame | ⟨hnone, hmade⟩
    · exact Or.inl hsame
    · exact Or.inr ⟨by simp [hnone], Or.inl (by simp [hnone]), by simp [hmade]⟩
  | temporary _ before after =>
    exact Or.inr ⟨before.not_directory, Or.inl before.not_link, after.not_link⟩
  | written _ before after =>
    exact Or.inr ⟨before.not_directory, Or.inl before.not_link, by simp [after]⟩

lemma aim_eq (h : Put written disk disk') (follow : Bool) (path : Path) :
    disk'.aim here follow path = disk.aim here follow path :=
  h.kept.aim_eq fun _ _ => not_false

lemma leads (h : Put written disk disk') {follow : Bool} {entry : Entry}
    (hleads : disk.Leads here follow path key) (hentry : disk'.find? key = some entry) :
    disk'.Leads here follow path key :=
  h.kept.leads (fun _ _ => not_false) hleads hentry

lemma file_stays (h : Put written disk disk') {content : Bytes} (hkey : ¬ TemporaryKey key)
    (hwritten : ∀ other, written key other → other = content)
    (hfile : disk.find? key = some (.file content)) : disk'.find? key = some (.file content) := by
  cases h key with
  | spared h => exact h.find?_eq hfile
  | temporary temporary _ _ => exact absurd temporary hkey
  | written h _ after => rw [after, hwritten _ h]

lemma file_from (h : Put written disk disk') {content : Bytes} (hkey : ¬ TemporaryKey key)
    (hfile : disk'.find? key = some (.file content)) :
    disk.find? key = some (.file content) ∨ written key content := by
  cases h key with
  | spared h =>
    rcases h with hsame | ⟨-, hmade⟩
    · exact Or.inl (hsame ▸ hfile)
    · rw [hmade] at hfile
      cases hfile
  | temporary temporary _ _ => exact absurd temporary hkey
  | written h _ after =>
    rw [after] at hfile
    cases hfile
    exact Or.inr h

end Put

/-! ### Directories without links -/

/-- Below the place of a directory there are directories and files only. -/
def Tidy (disk : Disk) (here : Standing) (directory : Path) : Prop :=
  ∀ base, disk.aim here true directory = some base → ∀ names, names ≠ [] → Ordinary disk (base ++ names)

namespace Tidy

lemma put (h : Tidy disk here directory) (hput : Put written disk disk') : Tidy disk' here directory := by
  intro base hbase names hnames
  rw [hput.aim_eq] at hbase
  exact (hput _).ordinary (h base hbase names hnames)

lemma aim_join (h : Tidy disk here directory) (hdirectory : directory.Open) (hname : IsName name)
    {follow : Bool} (haim : disk.aim here follow (directory.join name) = some key) :
    ∃ base, disk.aim here true directory = some base ∧ key = base ++ [name] := by
  obtain ⟨base, hbase, hnamed⟩ := Disk.aim_join hdirectory hname haim
  exact ⟨base, hbase, hnamed fun _ => (h base hbase [name] (by simp)).not_link⟩

lemma join (h : Tidy disk here directory) (hdirectory : directory.Open) (hname : IsName name) :
    Tidy disk here (directory.join name) := by
  intro inner hinner names hnames
  obtain ⟨base, hbase, rfl⟩ := h.aim_join hdirectory hname hinner
  rw [List.append_assoc]
  exact h base hbase _ (by simp)

lemma file_of_content? (h : Tidy disk here directory) (hdirectory : directory.Open) (hname : IsName name)
    {content : Bytes} (hread : disk.content? here (directory.join name) = some content) :
    ∃ base, disk.aim here true directory = some base ∧
      disk.find? (base ++ [name]) = some (.file content) := by
  unfold content? Disk.read at hread
  simp only [Bool.not_true, Bool.false_eq_true, if_false] at hread
  rcases hresolve : disk.resolve here true (directory.join name) with reason | place
  · simp [hresolve] at hread
  cases place with
  | absent key trailing => simp [hresolve] at hread
  | present place entry =>
    have hthere : disk.standingEntry place = some entry := resolve_isOn hresolve
    cases place with
    | detached parent =>
      obtain rfl : Entry.directory = entry := Option.some.inj hthere
      simp [hresolve] at hread
    | inside key =>
      obtain ⟨base, hbase, rfl⟩ := h.aim_join hdirectory hname (aim_of_present hresolve)
      have hfind : disk.find? (base ++ [name]) = some entry := hthere
      refine ⟨base, hbase, ?_⟩
      rcases h base hbase [name] (by simp) with hnot | hnot | ⟨found, hfile⟩
      · rw [hnot] at hfind
        cases hfind
      · rw [hnot, Option.some.injEq] at hfind
        subst hfind
        simp [hresolve] at hread
      · rw [hfile, Option.some.injEq] at hfind
        subst hfind
        simp only [hresolve, Option.some.injEq] at hread
        rw [hfile, hread]

end Tidy

/-- **A file that is in place stays** while others are put in place. -/
theorem Put.has {content : Bytes} (h : Put written disk disk') (hdirectory : directory.Open)
    (hname : IsName name) (hlasting : ¬ IsTemporary name)
    (hwritten : ∀ base other, disk.aim here true directory = some base →
      written (base ++ [name]) other → other = content)
    (hhas : disk.Has here (directory.join name) content) :
    disk'.Has here (directory.join name) content := by
  obtain ⟨key, hleads, hfile⟩ := hhas
  obtain ⟨base, hbase, hnamed⟩ := Disk.aim_join hdirectory hname hleads.aim_eq
  have hkey : key = base ++ [name] := hnamed fun hfollow => nomatch hfollow
  subst hkey
  have hstays := h.file_stays (not_temporaryKey hlasting base) (fun other => hwritten base other hbase) hfile
  exact ⟨_, h.leads hleads hstays, hstays⟩

/-- A file that was put in place is there after more is, with some content. -/
lemma Put.has_some {disk disk' : Disk} {here : Disk.Standing} {written : Key → Bytes → Prop} {content : Bytes}
    (h : Put written disk disk') (hdirectory : directory.Open) (hname : IsName name) (hlasting : ¬ IsTemporary name)
    (hhas : disk.Has here (directory.join name) content) :
    ∃ content, disk'.Has here (directory.join name) content := by
  obtain ⟨key, hleads, hfile⟩ := hhas
  obtain ⟨base, -, hnamed⟩ := Disk.aim_join hdirectory hname hleads.aim_eq
  obtain rfl : key = base ++ [name] := hnamed fun hfollow => nomatch hfollow
  cases h (base ++ [name]) with
  | spared hspared =>
    have hstays := hspared.find?_eq hfile
    exact ⟨content, _, h.leads hleads hstays, hstays⟩
  | temporary temporary _ _ => exact absurd temporary (not_temporaryKey hlasting base)
  | @written other _ _ hafter => exact ⟨other, _, h.leads hleads hafter, hafter⟩

end Chronicle.Storage
