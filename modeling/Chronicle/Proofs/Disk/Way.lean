import Chronicle.Proofs.Disk.Contents

/-!
The way of a path over a disk.

A name that is missing, or that stands for a file, stops the system on its way, but it does not turn it
elsewhere: only links do. So a path has one place where it ends, whether the system gets there today or
only once the directories above it have been made, and that place stays where it is as long as the links
on the way do. A program that makes directories and replaces files knows beforehand which places its paths
can lead to.
-/

namespace Chronicle.Disk

/-- The links that a path goes over, and where it ends unless there is no end to it. -/
structure Way where
  links : List Key
  goal : Option Standing
  deriving DecidableEq, Repr

/-- Follows names in turn as the look-up does, taking whatever is no link for a directory. -/
def wayNames (disk : Disk) (follow : Bool) (onLink : Key → Bytes → List Bytes → Way) :
    Standing → List Bytes → Way
  | here, [] => ⟨[], some here⟩
  | here, name :: rest =>
    if name.isEmpty || name == [Bytes.dot] then wayNames disk follow onLink here rest
    else if name == [Bytes.dot, Bytes.dot] then wayNames disk follow onLink here.up rest
    else match here with
      | .detached _ => ⟨[], none⟩
      | .inside key =>
        match disk.find? (key ++ [name]) with
        | some (.link target) =>
          if rest.isEmpty && !follow then ⟨[], some (.inside (key ++ [name]))⟩
          else ⟨(key ++ [name]) :: (onLink key target rest).links, (onLink key target rest).goal⟩
        | _ => wayNames disk follow onLink (.inside (key ++ [name])) rest

/-- Follows names over a number of links at most. -/
def wayFrom (disk : Disk) (follow : Bool) : Nat → Standing → List Bytes → Way
  | 0 => wayNames disk follow fun _ _ _ => ⟨[], none⟩
  | links + 1 => wayNames disk follow fun key target rest =>
      wayFrom disk follow links (startOf (.inside key) target)
        (Bytes.splitOn Bytes.slash target ++ rest)

/-- The way of a path from a working directory. -/
def way (disk : Disk) (here : Standing) (follow : Bool) (path : Path) : Way :=
  let text := systemText path
  if text.isEmpty then ⟨[], none⟩
  else if longestPath < text.length then ⟨[], none⟩
  else disk.wayFrom follow mostLinks (startOf here text) (Bytes.splitOn Bytes.slash text)

/-- The links that a path goes over. -/
def crossed (disk : Disk) (here : Standing) (follow : Bool) (path : Path) : List Key :=
  (disk.way here follow path).links

/-- The place on the disk where a path ends. -/
def aim (disk : Disk) (here : Standing) (follow : Bool) (path : Path) : Option Key :=
  match (disk.way here follow path).goal with
  | some (.inside key) => some key
  | _ => none

variable {disk disk' : Disk} {here : Standing} {follow : Bool} {path : Path} {key : Key}

lemma aim_eq_some :
    disk.aim here follow path = some key ↔
      (disk.way here follow path).goal = some (.inside key) := by
  unfold aim
  split
  · next h => simp [h]
  · next h =>
    constructor
    · intro hnone
      cases hnone
    · intro hgoal
      exact absurd hgoal (h key)

/-! ### The look-up goes that way -/

/-- Where one stands at a place. -/
def Place.standing : Place → Standing
  | .present here _ => here
  | .absent key _ => .inside key

lemma wayNames_empty {onLink : Key → Bytes → List Bytes → Way} {names : List Bytes}
    (h : names.all (·.isEmpty) = true) :
    disk.wayNames follow onLink here names = ⟨[], some here⟩ := by
  induction names with
  | nil => rfl
  | cons name rest ih =>
    obtain ⟨hname, hrest⟩ : name.isEmpty = true ∧ rest.all (·.isEmpty) = true := by
      simpa using h
    simp [wayNames, hname, ih hrest]

lemma wayNames_of_walkNames {onLink : Key → Bytes → List Bytes → Except Errno Place}
    {onWay : Key → Bytes → List Bytes → Way}
    (hlink : ∀ key target rest place, onLink key target rest = .ok place →
      (onWay key target rest).goal = some place.standing)
    {names : List Bytes} {place : Place} (h : disk.walkNames follow onLink here names = .ok place) :
    (disk.wayNames follow onWay here names).goal = some place.standing := by
  induction names generalizing here with
  | nil =>
    rcases hentry : disk.standingEntry here with _ | entry
    · simp [walkNames, hentry] at h
    · simp only [walkNames, hentry, Except.ok.injEq] at h
      subst h
      rfl
  | cons name rest ih =>
    simp only [walkNames] at h
    simp only [wayNames]
    split at h
    · cases h
    split at h
    · next hdot => simpa only [hdot, if_true] using ih h
    next hdot =>
    rw [if_neg hdot]
    split at h
    · next hup => simpa only [hup, if_true] using ih h
    next hup =>
    rw [if_neg hup]
    split at h
    · cases h
    cases here with
    | detached parent => cases h
    | inside key =>
      rcases hfind : disk.find? (key ++ [name]) with _ | entry
      · simp only [hfind] at h ⊢
        split at h
        · next hrest =>
            -- A free name may have empty names behind it; the way ends at it.
          cases h
          rw [wayNames_empty hrest]
          rfl
        · cases h
      · cases entry with
        | link target =>
          simp only [hfind] at h ⊢
          split at h
          · next hlast =>
            cases h
            rw [if_pos hlast]
            rfl
          · next hlast =>
            rw [if_neg hlast]
            exact hlink key target rest place h
        | _ =>
          simp only [hfind] at h ⊢
          exact ih h

lemma wayFrom_of_resolveNames {links : Nat} {names : List Bytes} {place : Place}
    (h : disk.resolveNames follow links here names = .ok place) :
    (disk.wayFrom follow links here names).goal = some place.standing := by
  induction links generalizing here names place with
  | zero =>
    refine wayNames_of_walkNames (fun _ _ _ _ hlink => ?_) h
    cases hlink
  | succ links ih => exact wayNames_of_walkNames (fun _ _ _ _ hlink => ih hlink) h

/-- **A path leads to its end**, if it leads anywhere. -/
theorem goal_of_resolve {place : Place} (h : disk.resolve here follow path = .ok place) :
    (disk.way here follow path).goal = some place.standing := by
  unfold resolve at h
  unfold way
  dsimp only at h ⊢
  split at h
  · cases h
  next hempty =>
  rw [if_neg hempty]
  split at h
  · cases h
  next hlong =>
  rw [if_neg hlong]
  exact wayFrom_of_resolveNames h

lemma aim_of_present {entry : Entry}
    (h : disk.resolve here follow path = .ok (.present (.inside key) entry)) :
    disk.aim here follow path = some key :=
  aim_eq_some.mpr (goal_of_resolve h)

/-! ### Ways that stay -/

/-- Directories stay, links stay except those at some places, and no link is added. -/
structure Kept (replaced : Key → Prop) (disk disk' : Disk) : Prop where
  directory : ∀ key, disk.find? key = some .directory → disk'.find? key = some .directory
  link : ∀ key target, ¬ replaced key → disk.find? key = some (.link target) →
    disk'.find? key = some (.link target)
  old_link : ∀ key target, disk'.find? key = some (.link target) →
    disk.find? key = some (.link target)

variable {replaced : Key → Prop}

lemma Kept.refl (replaced : Key → Prop) (disk : Disk) : Kept replaced disk disk :=
  ⟨fun _ h => h, fun _ _ _ h => h, fun _ _ h => h⟩

lemma Kept.trans {disk'' : Disk} (h : Kept replaced disk disk') (h' : Kept replaced disk' disk'') :
    Kept replaced disk disk'' where
  directory key hkey := h'.directory key (h.directory key hkey)
  link key target hfree hkey := h'.link key target hfree (h.link key target hfree hkey)
  old_link key target hkey := h.old_link key target (h'.old_link key target hkey)

/-- An entry can change unless it is a directory, or a link at another place, or becomes a link. -/
lemma Kept.of_entries (h : ∀ key, disk'.find? key = disk.find? key ∨
    disk.find? key ≠ some .directory ∧
      ((∀ target, disk.find? key ≠ some (.link target)) ∨ replaced key) ∧
      ∀ target, disk'.find? key ≠ some (.link target)) : Kept replaced disk disk' where
  directory key hkey := by
    rcases h key with hsame | ⟨hnot, -, -⟩
    · rw [hsame, hkey]
    · exact absurd hkey hnot
  link key target hfree hkey := by
    rcases h key with hsame | ⟨-, hnot | hreplaced, -⟩
    · rw [hsame, hkey]
    · exact absurd hkey (hnot target)
    · exact absurd hreplaced hfree
  old_link key target hkey := by
    rcases h key with hsame | ⟨-, -, hnot⟩
    · rw [← hsame, hkey]
    · exact absurd hkey (hnot target)

lemma Kept.of_entry (hother : ∀ other, key ≠ other → disk'.find? other = disk.find? other)
    (hnot : disk.find? key ≠ some .directory)
    (hkey : (∀ target, disk.find? key ≠ some (.link target)) ∨ replaced key)
    (hafter : ∀ target, disk'.find? key ≠ some (.link target)) : Kept replaced disk disk' := by
  refine Kept.of_entries fun other => ?_
  by_cases heq : key = other
  · subst heq
    exact Or.inr ⟨hnot, hkey, hafter⟩
  · exact Or.inl (hother other heq)

lemma Kept.standing_directory (h : Kept replaced disk disk')
    (hhere : disk.standingEntry here = some .directory) :
    disk'.standingEntry here = some .directory := by
  cases here with
  | detached parent => rfl
  | inside key => exact h.directory key hhere

lemma Kept.not_link (h : Kept replaced disk disk')
    (hkey : ∀ target, disk.find? key ≠ some (.link target)) (target : Bytes) :
    disk'.find? key ≠ some (.link target) :=
  fun h' => hkey target (h.old_link key target h')

lemma wayNames_of_not_link {onLink : Key → Bytes → List Bytes → Way} {name : Bytes}
    {rest : List Bytes} (hdot : ¬(name.isEmpty || name == [Bytes.dot]) = true)
    (hup : ¬(name == [Bytes.dot, Bytes.dot]) = true)
    (h : ∀ target, disk.find? (key ++ [name]) ≠ some (.link target)) :
    disk.wayNames follow onLink (.inside key) (name :: rest) =
      disk.wayNames follow onLink (.inside (key ++ [name])) rest := by
  rw [wayNames, if_neg hdot, if_neg hup]
  rcases hfind : disk.find? (key ++ [name]) with _ | entry
  · rfl
  · cases entry with
    | link target => exact absurd hfind (h target)
    | _ => rfl

lemma Kept.wayNames (h : Kept replaced disk disk') {onLink onLink' : Key → Bytes → List Bytes → Way}
    (hlink : ∀ key target rest, (∀ link ∈ (onLink key target rest).links, ¬ replaced link) →
      onLink' key target rest = onLink key target rest)
    {names : List Bytes}
    (hclear : ∀ link ∈ (disk.wayNames follow onLink here names).links, ¬ replaced link) :
    disk'.wayNames follow onLink' here names = disk.wayNames follow onLink here names := by
  induction names generalizing here with
  | nil => rfl
  | cons name rest ih =>
    by_cases hdot : (name.isEmpty || name == [Bytes.dot]) = true
    · simp only [Disk.wayNames, hdot, if_true] at hclear ⊢
      exact ih hclear
    by_cases hup : (name == [Bytes.dot, Bytes.dot]) = true
    · simp only [Disk.wayNames, hdot, hup, if_true] at hclear ⊢
      exact ih hclear
    cases here with
    | detached parent => simp only [Disk.wayNames, if_neg hdot, if_neg hup]
    | inside key =>
      by_cases hfind : ∃ target, disk.find? (key ++ [name]) = some (.link target)
      · obtain ⟨target, hfind⟩ := hfind
        simp only [Disk.wayNames, if_neg hdot, if_neg hup, hfind] at hclear ⊢
        by_cases hlast : (rest.isEmpty && !follow) = true
        · -- The end of the way: whether the link is still there does not matter.
          have hrest : rest = [] := by
            simp only [Bool.and_eq_true, List.isEmpty_iff] at hlast
            exact hlast.1
          rw [if_pos hlast]
          subst hrest
          split
          · rw [if_pos hlast]
          · rfl
        · rw [if_neg hlast] at hclear ⊢
          have hkeep := h.link _ _ (hclear _ List.mem_cons_self) hfind
          simp only [hkeep, if_neg hlast]
          rw [hlink _ _ _ fun link hmem => hclear link (List.mem_cons_of_mem _ hmem)]
      · have hnot : ∀ target, disk.find? (key ++ [name]) ≠ some (.link target) :=
          fun target htarget => hfind ⟨target, htarget⟩
        rw [wayNames_of_not_link hdot hup hnot] at hclear ⊢
        rw [wayNames_of_not_link hdot hup (h.not_link hnot)]
        exact ih hclear

lemma Kept.wayFrom (h : Kept replaced disk disk') {links : Nat} {names : List Bytes}
    (hclear : ∀ link ∈ (disk.wayFrom follow links here names).links, ¬ replaced link) :
    disk'.wayFrom follow links here names = disk.wayFrom follow links here names := by
  induction links generalizing here names with
  | zero => exact h.wayNames (fun _ _ _ _ => rfl) hclear
  | succ links ih => exact h.wayNames (fun _ _ _ hlink => ih hlink) hclear

/-- **A way stays** as long as the links on it do. -/
theorem Kept.way (h : Kept replaced disk disk')
    (hclear : ∀ link ∈ disk.crossed here follow path, ¬ replaced link) :
    disk'.way here follow path = disk.way here follow path := by
  unfold crossed at hclear
  unfold Disk.way at hclear ⊢
  dsimp only at hclear ⊢
  split
  · rfl
  next hempty =>
  split
  · rfl
  next hlong =>
  rw [if_neg hempty, if_neg hlong] at hclear
  exact h.wayFrom hclear

lemma Kept.aim_eq (h : Kept replaced disk disk')
    (hclear : ∀ link ∈ disk.crossed here follow path, ¬ replaced link) :
    disk'.aim here follow path = disk.aim here follow path := by
  unfold aim
  rw [h.way hclear]

lemma Kept.crossed_eq (h : Kept replaced disk disk')
    (hclear : ∀ link ∈ disk.crossed here follow path, ¬ replaced link) :
    disk'.crossed here follow path = disk.crossed here follow path := by
  unfold crossed
  rw [h.way hclear]

/-! ### Ways that can be gone -/

/-- What is found at a place by a path that ends in its name. -/
def placeAt (disk : Disk) (key : Key) : Place :=
  match disk.find? key with
  | some entry => .present (.inside key) entry
  | none => .absent key false

lemma placeAt_of_find {entry : Entry} (h : disk.find? key = some entry) :
    disk.placeAt key = .present (.inside key) entry := by
  rw [placeAt, h]

lemma placeAt_standing (disk : Disk) (key : Key) : (disk.placeAt key).standing = .inside key := by
  unfold placeAt
  split <;> rfl

/-- The system gets to a place by a path, though perhaps nothing is there. -/
def Leads (disk : Disk) (here : Standing) (follow : Bool) (path : Path) (key : Key) : Prop :=
  disk.resolve here follow path = .ok (disk.placeAt key)

lemma toOption_eq_some {ε α : Type} {result : Except ε α} {value : α} :
    result.toOption = some value ↔ result = .ok value := by
  cases result <;> simp [Except.toOption]

lemma Leads.aim_eq (h : disk.Leads here follow path key) :
    disk.aim here follow path = some key := by
  rw [aim_eq_some, goal_of_resolve h, placeAt_standing]

lemma leads_of_present {entry : Entry}
    (h : disk.resolve here follow path = .ok (.present (.inside key) entry)) :
    disk.Leads here follow path key := by
  have hfind : disk.find? key = some entry := resolve_isOn h
  rw [Leads, h, placeAt_of_find hfind]

lemma leads_of_absent (h : disk.resolve here follow path = .ok (.absent key false)) :
    disk.Leads here follow path key := by
  have hfind : disk.find? key = none := resolve_isOn h
  rw [Leads, h, placeAt, hfind]

lemma Leads.resolve_eq (h : disk.Leads here follow path key) {entry : Entry}
    (hfind : disk.find? key = some entry) :
    disk.resolve here follow path = .ok (.present (.inside key) entry) := by
  rw [h, placeAt_of_find hfind]

/-- A name that is neither a dot nor two dots nor too long, and can be looked up. -/
structure Plain (name : Bytes) : Prop where
  not_dot : ¬(name.isEmpty || name == [Bytes.dot]) = true
  not_up : ¬(name == [Bytes.dot, Bytes.dot]) = true
  short : ¬longestName < name.length

lemma walkNames_name {onLink : Key → Bytes → List Bytes → Except Errno Place} {parent : Key}
    {name : Bytes} {rest : List Bytes} (hparent : disk.find? parent = some .directory)
    (hname : Plain name) :
    disk.walkNames follow onLink (.inside parent) (name :: rest) =
      match disk.find? (parent ++ [name]) with
      | none =>
        if rest.all (·.isEmpty) then .ok (.absent (parent ++ [name]) (!rest.isEmpty))
        else .error .noEntry
      | some (.link target) =>
        if rest.isEmpty && !follow then .ok (.present (.inside (parent ++ [name])) (.link target))
        else onLink parent target rest
      | some _ => disk.walkNames follow onLink (.inside (parent ++ [name])) rest := by
  have hhere : disk.standingEntry (.inside parent) = some .directory := hparent
  calc disk.walkNames follow onLink (.inside parent) (name :: rest)
    _ = _ := if_neg (not_not.mpr hhere)
    _ = _ := if_neg hname.not_dot
    _ = _ := if_neg hname.not_up
    _ = _ := if_neg hname.short

/-- Names that lead to no entry of their own: an empty one, a dot, two dots, one that is too long. -/
lemma walkNames_cons {onLink : Key → Bytes → List Bytes → Except Errno Place} {name : Bytes}
    {rest : List Bytes} (hhere : disk.standingEntry here = some .directory) (hname : ¬ Plain name) :
    disk.walkNames follow onLink here (name :: rest) =
      if name.isEmpty || name == [Bytes.dot] then disk.walkNames follow onLink here rest
      else if name == [Bytes.dot, Bytes.dot] then disk.walkNames follow onLink here.up rest
      else .error .nameTooLong := by
  simp only [walkNames, hhere, ne_eq, not_true_eq_false, if_false]
  refine ite_congr rfl (fun _ => rfl) fun hdot => ite_congr rfl (fun _ => rfl) fun hup => ?_
  exact if_pos (not_not.mp fun hlong => hname ⟨hdot, hup, hlong⟩)

lemma walkNames_detached {onLink : Key → Bytes → List Bytes → Except Errno Place} {parent : Key}
    {name : Bytes} {rest : List Bytes} (hname : Plain name) :
    disk.walkNames follow onLink (.detached parent) (name :: rest) = .error .noEntry := by
  have hhere : disk.standingEntry (.detached parent) = some .directory := rfl
  rw [walkNames, if_neg (not_not.mpr hhere), if_neg hname.not_dot, if_neg hname.not_up,
    if_neg hname.short]

lemma walkNames_last {onLink : Key → Bytes → List Bytes → Except Errno Place} {parent : Key}
    {name : Bytes} {entry : Entry} (hparent : disk.find? parent = some .directory)
    (hname : Plain name) (hentry : disk.find? (parent ++ [name]) = some entry)
    (hlink : ∀ target, entry = .link target → follow = false) :
    disk.walkNames follow onLink (.inside parent) [name] =
      .ok (.present (.inside (parent ++ [name])) entry) := by
  rw [walkNames_name hparent hname, hentry]
  cases entry with
  | link target => simp [hlink target rfl]
  | _ => simp [walkNames, standingEntry, hentry]

lemma walkNames_behind {onLink : Key → Bytes → List Bytes → Except Errno Place} {names : List Bytes}
    {place : Place} (hhere : disk.standingEntry here ≠ some .directory)
    (h : disk.walkNames follow onLink here names = .ok place) :
    names = [] ∧ ∃ entry, disk.standingEntry here = some entry ∧ place = .present here entry := by
  cases names with
  | nil =>
    rcases hentry : disk.standingEntry here with _ | entry
    · simp [walkNames, hentry] at h
    · simp only [walkNames, hentry, Except.ok.injEq] at h
      exact ⟨rfl, entry, rfl, h.symm⟩
  | cons name rest =>
    simp only [walkNames, if_pos hhere] at h
    cases h

lemma eq_of_standing {place : Place} (h : place = disk.placeAt key) : place.standing = .inside key := by
  rw [h, placeAt_standing]

/-- A walk over a name that was free ends there, and there is something now. -/
lemma Kept.walkNames_free (h : Kept replaced disk disk') {entry : Entry}
    (hentry : disk'.find? key = some entry)
    {onLink : Key → Bytes → List Bytes → Except Errno Place} {parent : Key} {name : Bytes}
    {rest : List Bytes} (hparent : disk'.find? parent = some .directory) (hname : Plain name)
    (hfind : disk.find? (parent ++ [name]) = none)
    (hwalk : (if rest.all (·.isEmpty) then
        Except.ok (Place.absent (parent ++ [name]) (!rest.isEmpty)) else .error Errno.noEntry) =
      .ok (disk.placeAt key)) :
    disk'.walkNames follow onLink (.inside parent) (name :: rest) =
      .ok (.present (.inside key) entry) := by
  split at hwalk
  · have hkey : parent ++ [name] = key := Standing.inside.inj (eq_of_standing (Except.ok.inj hwalk))
    subst hkey
    rw [placeAt, hfind] at hwalk
    have hrest : rest = [] := by simpa using hwalk
    subst hrest
    refine walkNames_last hparent hname hentry fun target htarget => ?_
    have hnone := h.old_link _ target (htarget ▸ hentry)
    rw [hfind] at hnone
    cases hnone
  · cases hwalk

lemma Kept.walkNames_end (h : Kept replaced disk disk') {entry : Entry}
    (hentry : disk'.find? key = some entry)
    {onLink onLink' : Key → Bytes → List Bytes → Except Errno Place} {parent : Key} {name : Bytes}
    {rest : List Bytes} (hparent : disk'.find? parent = some .directory) (hname : Plain name)
    (hdirectory : disk.find? (parent ++ [name]) ≠ some .directory)
    (hnot : ∀ target, disk.find? (parent ++ [name]) ≠ some (.link target))
    (hwalk : disk.walkNames follow onLink (.inside (parent ++ [name])) rest =
      .ok (disk.placeAt key)) :
    disk'.walkNames follow onLink' (.inside parent) (name :: rest) =
      .ok (.present (.inside key) entry) := by
  have hend : disk.standingEntry (.inside (parent ++ [name])) ≠ some .directory := hdirectory
  obtain ⟨rfl, old, -, hpresent⟩ := walkNames_behind hend hwalk
  have hkey : parent ++ [name] = key := Standing.inside.inj (eq_of_standing hpresent.symm)
  subst hkey
  refine walkNames_last hparent hname hentry fun target htarget => ?_
  exact absurd (h.old_link _ target (htarget ▸ hentry)) (hnot target)

/-- A walk that arrives at a place still arrives there if something else is there now. -/
lemma Kept.walkNames (h : Kept replaced disk disk') {entry : Entry}
    (hentry : disk'.find? key = some entry)
    {onLink onLink' : Key → Bytes → List Bytes → Except Errno Place}
    {onWay : Key → Bytes → List Bytes → Way}
    (hlink : ∀ parent target rest, (∀ link ∈ (onWay parent target rest).links, ¬ replaced link) →
      onLink parent target rest = .ok (disk.placeAt key) →
      onLink' parent target rest = .ok (.present (.inside key) entry))
    {names : List Bytes}
    (hclear : ∀ link ∈ (disk.wayNames follow onWay here names).links, ¬ replaced link)
    (hwalk : disk.walkNames follow onLink here names = .ok (disk.placeAt key)) :
    disk'.walkNames follow onLink' here names = .ok (.present (.inside key) entry) := by
  induction names generalizing here with
  | nil =>
    rcases hhere : disk.standingEntry here with _ | old
    · simp [Disk.walkNames, hhere] at hwalk
    · simp only [Disk.walkNames, hhere, Except.ok.injEq] at hwalk
      have hstand : here = .inside key := eq_of_standing hwalk
      subst hstand
      simp [Disk.walkNames, standingEntry, hentry]
  | cons name rest ih =>
    by_cases hhere : disk.standingEntry here ≠ some .directory
    · exact absurd (walkNames_behind hhere hwalk).1 (List.cons_ne_nil name rest)
    rw [not_not] at hhere
    have hhere' := h.standing_directory hhere
    by_cases hname : ¬ Plain name
    · rw [walkNames_cons hhere hname] at hwalk
      rw [walkNames_cons hhere' hname]
      simp only [Disk.wayNames] at hclear
      split at hwalk
      · next hdot =>
        rw [if_pos hdot] at hclear ⊢
        exact ih hclear hwalk
      next hdot =>
      split at hwalk
      · next hup =>
        rw [if_neg hdot, if_pos hup] at hclear ⊢
        exact ih hclear hwalk
      · cases hwalk
    rw [not_not] at hname
    cases here with
    | detached parent =>
      rw [walkNames_detached hname] at hwalk
      cases hwalk
    | inside parent =>
      rw [walkNames_name hhere hname] at hwalk
      by_cases hnot : ∀ target, disk.find? (parent ++ [name]) ≠ some (.link target)
      · rw [wayNames_of_not_link hname.not_dot hname.not_up hnot] at hclear
        rcases hfind : disk.find? (parent ++ [name]) with _ | old
        · rw [hfind] at hwalk
          exact h.walkNames_free hentry hhere' hname hfind hwalk
        have henter : disk.walkNames follow onLink (.inside (parent ++ [name])) rest =
            .ok (disk.placeAt key) := by
          rw [hfind] at hwalk
          cases old with
          | link target => exact absurd hfind (hnot target)
          | _ => exact hwalk
        by_cases hdirectory : disk.find? (parent ++ [name]) = some .directory
        · rw [walkNames_name hhere' hname, h.directory _ hdirectory]
          exact ih hclear henter
        · exact h.walkNames_end hentry hhere' hname hdirectory hnot henter
      · -- The link is kept, unless it is the last name and not followed.
        rw [not_forall] at hnot
        obtain ⟨target, htarget⟩ := hnot
        rw [not_not] at htarget
        simp only [Disk.wayNames, if_neg hname.not_dot, if_neg hname.not_up, htarget] at hclear
        simp only [htarget] at hwalk
        split at hwalk
        · next hlast =>
          have hkey : parent ++ [name] = key :=
            Standing.inside.inj (eq_of_standing (Except.ok.inj hwalk))
          subst hkey
          simp only [Bool.and_eq_true, List.isEmpty_iff, Bool.not_eq_true'] at hlast
          obtain ⟨rfl, hfollow⟩ := hlast
          exact walkNames_last hhere' hname hentry fun _ _ => hfollow
        · next hlast =>
          rw [if_neg hlast] at hclear
          have hkeep := h.link _ _ (hclear _ List.mem_cons_self) htarget
          rw [walkNames_name hhere' hname, hkeep]
          dsimp only
          rw [if_neg hlast]
          exact hlink _ _ _ (fun link hmem => hclear link (List.mem_cons_of_mem _ hmem)) hwalk

lemma Kept.resolveNames (h : Kept replaced disk disk') {entry : Entry}
    (hentry : disk'.find? key = some entry) {links : Nat} {names : List Bytes}
    (hclear : ∀ link ∈ (disk.wayFrom follow links here names).links, ¬ replaced link)
    (hwalk : disk.resolveNames follow links here names = .ok (disk.placeAt key)) :
    disk'.resolveNames follow links here names = .ok (.present (.inside key) entry) := by
  induction links generalizing here names with
  | zero =>
    refine h.walkNames hentry (fun _ _ _ _ hlink => ?_) hclear hwalk
    cases hlink
  | succ links ih => exact h.walkNames hentry (fun _ _ _ hfree hlink => ih hfree hlink) hclear hwalk

/-- **A path that leads to a place goes on to do so** as long as something is there. -/
theorem Kept.leads (h : Kept replaced disk disk')
    (hclear : ∀ link ∈ disk.crossed here follow path, ¬ replaced link)
    (hleads : disk.Leads here follow path key) {entry : Entry}
    (hentry : disk'.find? key = some entry) : disk'.Leads here follow path key := by
  unfold Leads Disk.resolve at hleads ⊢
  unfold crossed Disk.way at hclear
  dsimp only at hleads hclear ⊢
  rw [placeAt_of_find hentry]
  split at hleads
  · cases hleads
  next hempty =>
  split at hleads
  · cases hleads
  next hlong =>
  rw [if_neg hempty, if_neg hlong] at hclear ⊢
  exact h.resolveNames hentry hclear hleads

/-! ### Ways that do not end on a link

Whether a link that is the last name is followed matters only if there is one.
-/

lemma walkNames_follow {onLink onLink' : Key → Bytes → List Bytes → Except Errno Place}
    {onWay : Key → Bytes → List Bytes → Way}
    (hlink : ∀ parent target rest,
      (∀ key target', (onWay parent target rest).goal = some (.inside key) →
        disk.find? key ≠ some (.link target')) →
      onLink' parent target rest = onLink parent target rest)
    {names : List Bytes}
    (hend : ∀ key target, (disk.wayNames false onWay here names).goal = some (.inside key) →
      disk.find? key ≠ some (.link target)) :
    disk.walkNames true onLink' here names = disk.walkNames false onLink here names := by
  induction names generalizing here with
  | nil => rfl
  | cons name rest ih =>
    by_cases hhere : disk.standingEntry here ≠ some .directory
    · simp only [walkNames, if_pos hhere]
    rw [not_not] at hhere
    by_cases hname : ¬ Plain name
    · rw [walkNames_cons hhere hname, walkNames_cons hhere hname]
      simp only [wayNames] at hend
      split
      · next hdot =>
        rw [if_pos hdot] at hend
        exact ih hend
      next hdot =>
      split
      · next hup =>
        rw [if_neg hdot, if_pos hup] at hend
        exact ih hend
      · rfl
    rw [not_not] at hname
    cases here with
    | detached parent => rw [walkNames_detached hname, walkNames_detached hname]
    | inside parent =>
      rw [walkNames_name hhere hname, walkNames_name hhere hname]
      rw [wayNames, if_neg hname.not_dot, if_neg hname.not_up] at hend
      rcases hfind : disk.find? (parent ++ [name]) with _ | entry
      · rfl
      · cases entry with
        | link target =>
          simp only [hfind] at hend ⊢
          -- A link is treated differently only if it is the last name, and then the way ends at it.
          by_cases hlast : rest.isEmpty = true
          · simp only [hlast, Bool.not_false, Bool.and_self, if_true] at hend
            exact absurd hfind (hend _ target rfl)
          · simp only [hlast, Bool.false_and, Bool.false_eq_true, if_false] at hend ⊢
            exact hlink _ _ _ hend
        | _ =>
          simp only [hfind] at hend ⊢
          exact ih hend

lemma resolveNames_follow {links : Nat} {names : List Bytes}
    (hend : ∀ key target, (disk.wayFrom false links here names).goal = some (.inside key) →
      disk.find? key ≠ some (.link target)) :
    disk.resolveNames true links here names = disk.resolveNames false links here names := by
  induction links generalizing here names with
  | zero => exact walkNames_follow (fun _ _ _ _ => rfl) hend
  | succ links ih => exact walkNames_follow (fun _ _ _ hlink => ih hlink) hend

/-- No link is where a path ends, so it makes no difference whether the last name is followed. -/
def EndsOnNoLink (disk : Disk) (here : Standing) (path : Path) : Prop :=
  ∀ key target, disk.aim here false path = some key → disk.find? key ≠ some (.link target)

lemma EndsOnNoLink.resolve_follow (h : disk.EndsOnNoLink here path) :
    disk.resolve here true path = disk.resolve here false path := by
  unfold resolve
  dsimp only
  split
  · rfl
  next hempty =>
  split
  · rfl
  next hlong =>
  refine resolveNames_follow fun key target hgoal => h key target (aim_eq_some.mpr ?_)
  unfold way
  dsimp only
  rw [if_neg hempty, if_neg hlong, hgoal]

end Chronicle.Disk
