import Chronicle.Disk.Outside
import Chronicle.Proofs.Disk.Changes

/-!
A disk stays a tree.

Every entry lies in a directory, and no key is listed twice. Entries are added under free names in
directories, a file takes the place of what is no directory, and what is removed has nothing below it or
goes with all of that; so each operation keeps the disk a tree.
-/

namespace Chronicle.Disk

variable {disk disk' : Disk} {here : Standing} {follow : Bool} {path : Path} {key : Key} {entry : Entry}

/-! ### Entries and keys -/

lemma mem_of_findEntry {entries : List (Key × Entry)} (h : findEntry key entries = some entry) :
    (key, entry) ∈ entries := by
  induction entries with
  | nil => cases h
  | cons first rest ih =>
    obtain ⟨k, v⟩ := first
    rw [findEntry] at h
    split at h
    · next heq =>
      cases h
      exact heq ▸ List.mem_cons_self
    · exact List.mem_cons_of_mem _ (ih h)

lemma mem_of_find? (h : disk.find? key = some entry) (hkey : key ≠ []) : (key, entry) ∈ disk.entries := by
  rw [find?, if_neg hkey] at h
  exact mem_of_findEntry h

lemma findEntry_of_mem {entries : List (Key × Entry)} (hnodup : (entries.map (·.1)).Nodup)
    (h : (key, entry) ∈ entries) : findEntry key entries = some entry := by
  induction entries with
  | nil => cases h
  | cons first rest ih =>
    obtain ⟨k, v⟩ := first
    obtain ⟨hfirst, hrest⟩ := List.nodup_cons.mp hnodup
    rw [findEntry]
    rcases List.mem_cons.mp h with heq | hmem
    · cases heq
      exact if_pos rfl
    · have hne : k ≠ key := by
        rintro rfl
        exact hfirst (List.mem_map.mpr ⟨_, hmem, rfl⟩)
      rw [if_neg hne]
      exact ih hrest hmem

lemma mem_setEntry {value : Entry} {other : Key × Entry} {entries : List (Key × Entry)}
    (h : other ∈ setEntry key value entries) : other = (key, value) ∨ other ∈ entries := by
  induction entries with
  | nil => exact Or.inl (List.mem_singleton.mp h)
  | cons first rest ih =>
    obtain ⟨k, v⟩ := first
    rw [setEntry] at h
    split at h
    · rcases List.mem_cons.mp h with heq | hmem
      · exact Or.inl heq
      · exact Or.inr (List.mem_cons_of_mem _ hmem)
    · rcases List.mem_cons.mp h with heq | hmem
      · exact Or.inr (heq ▸ List.mem_cons_self)
      · exact (ih hmem).imp_right (List.mem_cons_of_mem _)

lemma map_fst_setEntry (key : Key) (value : Entry) (entries : List (Key × Entry)) :
    (setEntry key value entries).map (·.1) =
      if key ∈ entries.map (·.1) then entries.map (·.1) else entries.map (·.1) ++ [key] := by
  induction entries with
  | nil => rfl
  | cons first rest ih =>
    obtain ⟨k, v⟩ := first
    rw [setEntry]
    split
    · next heq => simp [heq]
    · next hne =>
      have hne' : ¬ key = k := fun heq => hne heq.symm
      rw [List.map_cons, ih]
      by_cases hmem : key ∈ rest.map (·.1) <;> simp [hmem, hne']

lemma findEntry_keep (keep : Key → Bool) (other : Key) (entries : List (Key × Entry)) :
    findEntry other (entries.filter fun entry => keep entry.1) =
      if keep other then findEntry other entries else none := by
  induction entries with
  | nil => simp [findEntry]
  | cons first rest ih =>
    obtain ⟨k, v⟩ := first
    by_cases hk : keep k = true
    · rw [List.filter_cons_of_pos (by simp [hk]), findEntry, ih, findEntry]
      by_cases heq : k = other
      · subst heq
        simp [hk]
      · simp [heq]
    · rw [List.filter_cons_of_neg (by simp [hk]), ih, findEntry]
      by_cases heq : k = other
      · subst heq
        simp [hk]
      · simp [heq]

lemma key_of_child {listed : Key × Entry} {child : Bytes × Entry}
    (h : (match listed.1.getLast? with
      | none => none
      | some name => if listed.1.dropLast = key then some (name, listed.2) else none) = some child) :
    listed = (key ++ [child.1], child.2) := by
  split at h
  · cases h
  · next name hlast =>
    split at h
    · next hparent =>
      cases h
      obtain ⟨front, hfront⟩ := List.getLast?_eq_some_iff.mp hlast
      rw [hfront, List.dropLast_concat] at hparent
      exact Prod.ext (hparent ▸ hfront) rfl
    · cases h

lemma mem_children {child : Bytes × Entry} :
    child ∈ disk.children key ↔ (key ++ [child.1], child.2) ∈ disk.entries := by
  rw [children, List.mem_filterMap]
  constructor
  · rintro ⟨listed, hmem, hchild⟩
    exact key_of_child hchild ▸ hmem
  · intro hmem
    exact ⟨_, hmem, by simp⟩

lemma dropLast_ne (hkey : key ≠ []) : key.dropLast ≠ key := by
  intro h
  have hlength := congrArg List.length h
  have hpos := List.length_pos_iff.mpr hkey
  rw [List.length_dropLast] at hlength
  omega

namespace WellFormed

lemma find?_of_mem (h : disk.WellFormed) (hmem : (key, entry) ∈ disk.entries) :
    disk.find? key = some entry := by
  rw [find?, if_neg (h.key_ne_nil _ hmem)]
  exact findEntry_of_mem h.keys_nodup hmem

lemma parent (h : disk.WellFormed) (hfind : disk.find? key = some entry) (hkey : key ≠ []) :
    disk.find? key.dropLast = some .directory :=
  h.parent_directory _ (mem_of_find? hfind hkey)

lemma set (h : disk.WellFormed) {value : Entry} (hkey : key ≠ [])
    (hparent : disk.find? key.dropLast = some .directory)
    (hold : disk.find? key = some .directory → value = .directory) : (disk.set key value).WellFormed where
  keys_nodup := by
    rw [Disk.set, map_fst_setEntry]
    split
    · exact h.keys_nodup
    · next hmem =>
      refine List.nodup_append.mpr ⟨h.keys_nodup, List.pairwise_singleton _ _, ?_⟩
      rintro other hother _ hlast rfl
      rw [List.mem_singleton] at hlast
      exact hmem (hlast ▸ hother)
  key_ne_nil other hother := by
    rcases mem_setEntry hother with rfl | hmem
    · exact hkey
    · exact h.key_ne_nil other hmem
  parent_directory other hother := by
    rw [find?_set disk hkey]
    split
    · next heq =>
      rcases mem_setEntry hother with rfl | hmem
      · exact absurd heq.symm (dropLast_ne hkey)
      · rw [hold (heq ▸ h.parent_directory other hmem)]
    · rcases mem_setEntry hother with rfl | hmem
      · exact hparent
      · exact h.parent_directory other hmem

lemma keep (h : disk.WellFormed) (keep : Key → Bool)
    (hkeep : ∀ other ∈ disk.entries, keep other.1 = true → keep other.1.dropLast = true) :
    (Disk.mk (disk.entries.filter fun entry => keep entry.1)).WellFormed where
  keys_nodup := h.keys_nodup.sublist (List.filter_sublist.map _)
  key_ne_nil other hother := h.key_ne_nil other (List.mem_filter.mp hother).1
  parent_directory other hother := by
    obtain ⟨hmem, hkept⟩ := List.mem_filter.mp hother
    have hparent := h.parent_directory other hmem
    rw [find?] at hparent ⊢
    split
    · rfl
    · next hne =>
      rw [if_neg hne] at hparent
      rw [findEntry_keep, if_pos (hkeep other hmem hkept), hparent]

lemma erase (h : disk.WellFormed) (hfree : ∀ other ∈ disk.entries, other.1.dropLast ≠ key) :
    (disk.erase key).WellFormed :=
  h.keep (fun other => other != key) fun other hother _ => by simpa using hfree other hother

lemma erase_of_not_directory (h : disk.WellFormed) (hentry : disk.find? key ≠ some .directory) :
    (disk.erase key).WellFormed :=
  h.erase fun other hother heq => hentry (heq ▸ h.parent_directory other hother)

end WellFormed

/-! ### Free names -/

lemma walkNames_parent {onLink : Key → Bytes → List Bytes → Except Errno Place} {trailing : Bool}
    (hlink : ∀ parent target rest, onLink parent target rest = .ok (.absent key trailing) →
      disk.find? key.dropLast = some .directory)
    {names : List Bytes} (h : disk.walkNames follow onLink here names = .ok (.absent key trailing)) :
    disk.find? key.dropLast = some .directory := by
  induction names generalizing here with
  | nil =>
    rw [walkNames] at h
    split at h <;> cases h
  | cons name rest ih =>
    simp only [walkNames] at h
    split at h
    · cases h
    next hhere =>
    split at h
    · exact ih h
    split at h
    · exact ih h
    split at h
    · cases h
    cases here with
    | detached parent => cases h
    | inside parent =>
      rcases hfind : disk.find? (parent ++ [name]) with _ | found
      · simp only [hfind] at h
        split at h
        · cases h
          -- A name is free only in a directory that is there.
          rw [List.dropLast_concat]
          exact not_not.mp hhere
        · cases h
      · cases found with
        | link target =>
          simp only [hfind] at h
          split at h
          · cases h
          · exact hlink _ _ _ h
        | _ =>
          simp only [hfind] at h
          exact ih h

lemma resolveNames_parent {links : Nat} {names : List Bytes} {trailing : Bool}
    (h : disk.resolveNames follow links here names = .ok (.absent key trailing)) :
    disk.find? key.dropLast = some .directory := by
  induction links generalizing here names with
  | zero =>
    refine walkNames_parent (fun _ _ _ hlink => ?_) h
    cases hlink
  | succ links ih => exact walkNames_parent (fun _ _ _ hlink => ih hlink) h

lemma resolve_parent {trailing : Bool} (h : disk.resolve here follow path = .ok (.absent key trailing)) :
    disk.find? key.dropLast = some .directory := by
  unfold resolve at h
  dsimp only at h
  split at h
  · cases h
  split at h
  · cases h
  exact resolveNames_parent h

lemma WellFormed.above (h : disk.WellFormed) (hleads : disk.Leads here follow path key) (hkey : key ≠ []) :
    disk.find? key.dropLast = some .directory := by
  rcases hfind : disk.find? key with _ | entry
  · have habsent : disk.resolve here follow path = .ok (.absent key false) := by
      rw [hleads, placeAt, hfind]
    exact resolve_parent habsent
  · exact h.parent hfind hkey

/-! ### Operations -/

namespace WellFormed

lemma makeDirectory (h : disk.WellFormed) (hmake : disk.makeDirectory here path = .ok disk') :
    disk'.WellFormed := by
  unfold Disk.makeDirectory at hmake
  split at hmake
  · cases hmake
  · cases hmake
  · next hresolve =>
    cases hmake
    exact h.set (ne_nil_of_none (resolve_isOn hresolve)) (resolve_parent hresolve) fun _ => rfl

lemma ensureAll (h : disk.WellFormed) (paths : List Path) :
    (Disk.ensureAll here paths disk).2.WellFormed := by
  induction paths generalizing disk with
  | nil => exact h
  | cons path rest ih =>
    rw [Disk.ensureAll]
    split
    · next made hmade =>
      refine ih ?_
      unfold ensureDirectory at hmade
      split at hmade
      · next hmake =>
        cases hmade
        exact h.makeDirectory hmake
      · split at hmade
        · cases hmade
          exact h
        · cases hmade
    · exact h

theorem makeDirectories (h : disk.WellFormed) (here : Standing) (path : Path) :
    (disk.makeDirectories here path).2.WellFormed := by
  unfold Disk.makeDirectories
  split
  · exact h
  split
  · exact h
  split
  · dsimp only
    split
    · exact h.ensureAll _
    · exact h
  · exact h

theorem writeBehind (h : disk.WellFormed) (here : Standing) (limits : Limits) (keep : Bytes → Bytes)
    (path : Path) (data : Bytes) : (disk.writeBehind here limits keep path data).2.WellFormed := by
  rcases writeBehind_cases disk here limits keep path data with ⟨hdisk, -⟩ | ⟨key, part, hwrote⟩
  · rwa [hdisk]
  · have hkey := hwrote.writable.ne_nil
    rw [hwrote.disk_eq]
    exact h.set hkey (h.above hwrote.leads hkey) fun hdirectory =>
      absurd hdirectory hwrote.writable.not_directory

theorem truncate {size : Nat} (h : disk.WellFormed) (hcut : disk.truncate here path size = .ok disk') :
    disk'.WellFormed := by
  obtain ⟨key, content, hresolve, rfl⟩ := truncate_cases hcut
  have hfile : disk.find? key = some (.file content) := resolve_isOn hresolve
  have hkey : key ≠ [] := Writable.ne_nil (Or.inr ⟨content, hfile⟩)
  exact h.set hkey (h.parent hfile hkey) fun hdirectory => by
    rw [hfile] at hdirectory
    cases hdirectory

theorem rename {source target : Path} (h : disk.WellFormed)
    (hmove : disk.rename here source target = .ok disk') : disk'.WellFormed := by
  obtain ⟨sourceKey, entry, key, hsource, hentry, hleads, hplace, ⟨-, rfl⟩ | ⟨hne, rfl⟩⟩ := rename_cases hmove
  · exact h
  have hfind : disk.find? sourceKey = some entry := resolve_isOn hsource
  have hkey : key ≠ [] := by
    rintro rfl
    exact hplace (find?_nil disk)
  have hsourceKey : sourceKey ≠ [] := by
    rintro rfl
    rw [find?_nil, Option.some.injEq] at hfind
    exact hentry hfind.symm
  have hnot : disk.find? sourceKey ≠ some .directory := by
    rw [hfind]
    simpa using hentry
  refine (h.erase_of_not_directory hnot).set hkey ?_ fun hdirectory => ?_
  · -- The directory of the target is not the entry that is moved away.
    have habove := h.above hleads hkey
    have hstays : sourceKey ≠ key.dropLast := fun heq => hnot (heq.symm ▸ habove)
    rw [find?_erase disk hsourceKey, if_neg hstays]
    exact habove
  · rw [find?_erase disk hsourceKey, if_neg fun heq => hne heq.symm] at hdirectory
    exact absurd hdirectory hplace

theorem remove (h : disk.WellFormed) (hremove : disk.remove here path = .ok disk') : disk'.WellFormed := by
  unfold Disk.remove at hremove
  rcases hresolve : disk.resolve here false path with reason | place
  · simp only [hresolve, bind, Except.bind] at hremove
    cases hremove
  rw [hresolve] at hremove
  simp only [bind, Except.bind] at hremove
  split at hremove
  · cases hremove
  · cases hremove
  · next key entry =>
    split at hremove
    · cases hremove
    split at hremove
    · cases hremove
    split at hremove
    · cases hremove
    split at hremove
    · cases hremove
    next hempty =>
    cases hremove
    have hfind : disk.find? key = some entry := resolve_isOn hresolve
    by_cases hdirectory : entry = .directory
    · -- What is below the directory would be listed in it.
      refine h.erase fun other hother heq => hempty ?_
      have hchild : (other.1.getLast (h.key_ne_nil other hother), other.2) ∈ disk.children key := by
        rw [mem_children, ← heq, List.dropLast_concat_getLast]
        exact hother
      simpa [hdirectory] using List.ne_nil_of_mem hchild
    · refine h.erase_of_not_directory ?_
      rw [hfind]
      simpa using hdirectory

theorem removeAll (h : disk.WellFormed) (here : Standing) (path : Path) :
    (disk.removeAll here path).2.WellFormed := by
  unfold Disk.removeAll
  split
  · next key entry hresolve =>
    refine h.keep (fun other => !key.isPrefixOf other) fun other hother hkept => ?_
    rw [Bool.not_eq_true', Bool.eq_false_iff, ne_eq, List.isPrefixOf_iff_prefix] at hkept ⊢
    exact fun habove => hkept (habove.trans (List.dropLast_prefix other.1))
  · exact h

theorem put (h : disk.WellFormed) (here : Standing) (path : Path) (data : Bytes) :
    (disk.put here path data).WellFormed := by
  unfold Disk.put
  dsimp only
  split
  · exact h.writeBehind _ _ _ _ _
  · exact (h.makeDirectories _ _).writeBehind _ _ _ _ _

end WellFormed

end Chronicle.Disk
