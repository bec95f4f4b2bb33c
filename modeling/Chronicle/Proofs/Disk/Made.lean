import Chronicle.Proofs.Disk.Changes

/-!
Directories that have been made.

Where a directory is made under a free name, the path that named it leads to it from then on. So a request
for directories that is granted ends with a directory where its path leads, whether that was there before
or is the last one to be made.
-/

namespace Chronicle.Disk

variable {disk disk' : Disk} {here : Standing} {path : Path} {key : Key}

lemma walkNames_of_empty {follow : Bool} {onLink : Key → Bytes → List Bytes → Except Errno Place}
    {names : List Bytes} (hhere : disk.standingEntry here = some .directory)
    (h : names.all (·.isEmpty) = true) :
    disk.walkNames follow onLink here names = .ok (.present here .directory) := by
  induction names with
  | nil => simp [walkNames, hhere]
  | cons name rest ih =>
    obtain ⟨hname, hrest⟩ : name.isEmpty = true ∧ rest.all (·.isEmpty) = true := by simpa using h
    simp only [walkNames, hhere, ne_eq, not_true_eq_false, if_false, hname, Bool.true_or, if_true]
    exact ih hrest

/-- A walk that ended at a free name goes on into the directory that has been made there. -/
lemma walkNames_made {trailing : Bool} (hkept : Kept (fun _ => False) disk disk')
    (hmade : disk'.find? key = some .directory)
    {onLink onLink' : Key → Bytes → List Bytes → Except Errno Place}
    (hlink : ∀ parent target rest, onLink parent target rest = .ok (.absent key trailing) →
      onLink' parent target rest = .ok (.present (.inside key) .directory))
    {names : List Bytes} (h : disk.walkNames false onLink here names = .ok (.absent key trailing)) :
    disk'.walkNames true onLink' here names = .ok (.present (.inside key) .directory) := by
  induction names generalizing here with
  | nil =>
    rw [walkNames] at h
    split at h <;> cases h
  | cons name rest ih =>
    by_cases hhere : disk.standingEntry here ≠ some .directory
    · obtain ⟨-, entry, -, hplace⟩ := walkNames_behind hhere h
      cases hplace
    rw [not_not] at hhere
    have hhere' := hkept.standing_directory hhere
    by_cases hname : ¬ Plain name
    · rw [walkNames_cons hhere hname] at h
      rw [walkNames_cons hhere' hname]
      split at h
      · next hdot =>
        rw [if_pos hdot]
        exact ih h
      next hdot =>
      split at h
      · next hup =>
        rw [if_neg hdot, if_pos hup]
        exact ih h
      · cases h
    rw [not_not] at hname
    cases here with
    | detached parent =>
      rw [walkNames_detached hname] at h
      cases h
    | inside parent =>
      rw [walkNames_name hhere hname] at h
      rw [walkNames_name hhere' hname]
      rcases hfind : disk.find? (parent ++ [name]) with _ | entry
      · rw [hfind] at h
        dsimp only at h
        split at h
        · next hempty =>
          simp only [Except.ok.injEq, Place.absent.injEq] at h
          obtain ⟨rfl, -⟩ := h
          rw [hmade]
          exact walkNames_of_empty hmade hempty
        · cases h
      · -- The walk ended at a free name, so it did not end at what is no directory.
        have hbehind : ∀ other, entry = other → other ≠ .directory → (∀ target, other ≠ .link target) →
            disk.walkNames false onLink (.inside (parent ++ [name])) rest ≠ .ok (.absent key trailing) := by
          rintro _ rfl hnot - hwalk
          have hend : disk.standingEntry (.inside (parent ++ [name])) ≠ some .directory := by
            simpa [standingEntry, hfind] using hnot
          obtain ⟨-, old, -, hplace⟩ := walkNames_behind hend hwalk
          cases hplace
        rw [hfind] at h
        cases entry with
        | directory =>
          rw [hkept.directory _ hfind]
          exact ih h
        | link target =>
          dsimp only at h
          rw [hkept.link _ _ not_false hfind]
          split at h
          · cases h
          · simpa using hlink _ _ _ h
        | file content => exact absurd h (hbehind _ rfl (by simp) (by simp))
        | fullDevice => exact absurd h (hbehind _ rfl (by simp) (by simp))

lemma resolveNames_made {trailing : Bool} (hkept : Kept (fun _ => False) disk disk')
    (hmade : disk'.find? key = some .directory) {links : Nat} {names : List Bytes}
    (h : disk.resolveNames false links here names = .ok (.absent key trailing)) :
    disk'.resolveNames true links here names = .ok (.present (.inside key) .directory) := by
  induction links generalizing here names with
  | zero =>
    refine walkNames_made hkept hmade (fun _ _ _ hlink => ?_) h
    cases hlink
  | succ links ih => exact walkNames_made hkept hmade (fun _ _ _ hlink => ih hlink) h

/-- **A path to a free name** leads to the directory that is made there. -/
theorem resolve_made {trailing : Bool} (h : disk.resolve here false path = .ok (.absent key trailing)) :
    (disk.set key .directory).resolve here true path = .ok (.present (.inside key) .directory) := by
  have hfree : disk.find? key = none := resolve_isOn h
  unfold resolve at h ⊢
  dsimp only at h ⊢
  split at h
  · cases h
  next hempty =>
  split at h
  · cases h
  next hlong =>
  rw [if_neg hempty, if_neg hlong]
  exact resolveNames_made (Furnished.set hfree).kept (find?_set_self disk (ne_nil_of_none hfree) _) h

lemma resolve_of_status {found : Status} (h : disk.status here path = .ok found)
    (hkind : found.kind = .directory) :
    ∃ place, disk.resolve here true path = .ok (.present place .directory) := by
  unfold status at h
  rcases hresolve : disk.resolve here true path with reason | place
  · rw [hresolve] at h
    cases h
  · rw [hresolve] at h
    cases place with
    | absent key trailing => cases h
    | present place entry =>
      cases h
      cases entry with
      | directory => exact ⟨place, rfl⟩
      | _ => cases hkind

lemma ensureDirectory_done (h : disk.ensureDirectory here path = .ok disk') :
    ∃ place, disk'.resolve here true path = .ok (.present place .directory) := by
  unfold ensureDirectory at h
  split at h
  · next made hmake =>
    cases h
    unfold makeDirectory at hmake
    split at hmake
    · cases hmake
    · cases hmake
    · next hresolve =>
      cases hmake
      exact ⟨_, resolve_made hresolve⟩
  · split at h
    · next hstatus _ =>
      cases h
      exact resolve_of_status hstatus rfl
    · cases h

lemma ensureAll_done {front : List Path} (h : ensureAll here (front ++ [path]) disk = (none, disk')) :
    ∃ place, disk'.resolve here true path = .ok (.present place .directory) := by
  induction front generalizing disk with
  | nil =>
    rw [List.nil_append, ensureAll] at h
    split at h
    · next made hmake =>
      cases h
      exact ensureDirectory_done hmake
    · cases h
  | cons first front ih =>
    rw [List.cons_append, ensureAll] at h
    split at h
    · exact ih h
    · cases h

/-- The path that directories are asked for is the last one of those to make. -/
lemma missingDirectories_append {steps : Nat} {inner missing : List Path}
    (h : disk.missingDirectories here steps path inner = .ok missing) :
    ∃ front, missing = front ++
      if path.fileName == [Bytes.dot] || path.fileName == [Bytes.dot, Bytes.dot] then inner
      else path :: inner := by
  induction steps generalizing path inner with
  | zero => cases h
  | succ steps ih =>
    rw [missingDirectories] at h
    generalize (if path.fileName == [Bytes.dot] || path.fileName == [Bytes.dot, Bytes.dot] then inner
      else path :: inner) = more at h ⊢
    split at h
    · cases h
    split at h
    · cases h
      exact ⟨[], rfl⟩
    split at h
    · split at h
      · cases h
        exact ⟨[], rfl⟩
      · cases h
    · split at h
      · obtain ⟨front, rfl⟩ := ih h
        split
        · exact ⟨front, rfl⟩
        · refine ⟨front ++ [path.parent], ?_⟩
          rw [List.append_assoc, List.singleton_append]
      · cases h

/-- **Making directories that is granted** leaves a directory where the path leads. -/
theorem makeDirectories_done (hempty : path.fileName ≠ []) (hdot : path.fileName ≠ [Bytes.dot])
    (hup : path.fileName ≠ [Bytes.dot, Bytes.dot])
    (h : disk.makeDirectories here path = (none, disk')) :
    ∃ place, disk'.resolve here true path = .ok (.present place .directory) := by
  unfold makeDirectories at h
  split at h
  · cases h
  split at h
  · next status hstatus =>
    simp only [Prod.mk.injEq, ite_eq_left_iff, reduceCtorEq, imp_false, not_not] at h
    obtain ⟨hkind, rfl⟩ := h
    exact resolve_of_status hstatus hkind
  · split at h
    · have hstart : path.fileName.isEmpty = false := by simpa using hempty
      simp only [hstart, Bool.false_eq_true, if_false] at h
      split at h
      · next missing hmissing =>
        obtain ⟨front, rfl⟩ := missingDirectories_append hmissing
        rw [if_neg (by simp [hdot, hup])] at h
        exact ensureAll_done h
      · cases h
    · cases h

end Chronicle.Disk
