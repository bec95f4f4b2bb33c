import Chronicle.Proofs.Disk.Changes

/-!
Names behind a path.

A name that is put behind the path of a directory leads to the entry of that name in the place where the
path leads, unless a link of that name is followed elsewhere. So places of files in one directory differ
where their names do, whatever links the path of the directory goes over.
-/

namespace Chronicle

/-- A name that an entry can have, whatever its length, and that ends no path early. -/
structure IsName (name : Bytes) : Prop where
  ne_nil : name ≠ []
  ne_dot : name ≠ [Bytes.dot]
  ne_up : name ≠ [Bytes.dot, Bytes.dot]
  no_slash : Bytes.slash ∉ name
  no_null : (0 : UInt8) ∉ name

/-- A path that names are put behind with a slash between. -/
structure Path.Unended (path : Path) : Prop where
  ne_nil : path.text ≠ []
  no_slash : path.text.getLast? ≠ some Bytes.slash

/-- A path of this kind that the system does not cut off. -/
structure Path.Open (path : Path) : Prop extends path.Unended where
  no_null : (0 : UInt8) ∉ path.text

variable {directory : Path} {name : Bytes}

/-! ### Texts -/

/-- What stands in front of a name that is put behind a path. -/
def Path.front (path : Path) : Bytes :=
  if path.isEmpty then []
  else if path.text.getLast? == some Bytes.slash then path.text
  else path.text ++ [Bytes.slash]

lemma head?_of_no_slash (hslash : Bytes.slash ∉ name) : (name.head? == some Bytes.slash) = false := by
  rw [beq_eq_false_iff_ne]
  exact fun heq => hslash (List.mem_of_head? heq)

lemma Path.join_front (hslash : Bytes.slash ∉ name) (directory : Path) :
    directory.join name = ⟨directory.front ++ name⟩ := by
  unfold Path.join Path.front
  rw [head?_of_no_slash hslash, Bool.false_or]
  split
  · rfl
  split
  · rfl
  · rw [List.append_assoc, List.singleton_append]

lemma Path.front_no_null (h : (0 : UInt8) ∉ directory.text) : (0 : UInt8) ∉ directory.front := by
  unfold Path.front
  split
  · exact List.not_mem_nil
  split
  · exact h
  · rw [List.mem_append, not_or]
    exact ⟨h, by decide⟩

lemma IsName.head? (hname : IsName name) : (name.head? == some Bytes.slash) = false :=
  head?_of_no_slash hname.no_slash

lemma Path.Unended.join_eq (h : directory.Unended) (hname : IsName name) :
    directory.join name = ⟨directory.text ++ Bytes.slash :: name⟩ := by
  have hempty : directory.isEmpty = false := by
    rw [Path.isEmpty, List.isEmpty_eq_false_iff]
    exact h.ne_nil
  have hlast : (directory.text.getLast? == some Bytes.slash) = false := by
    simpa using h.no_slash
  simp [Path.join, hname.head?, hempty, hlast]

/-- A name stands at the end, behind nothing or behind a slash that the path ends in by now. -/
lemma IsName.join_eq (hname : IsName name) (directory : Path) :
    ∃ front, directory.join name = ⟨front ++ name⟩ ∧ directory.text <+: front ∧
      (∀ b ∈ front, b ∈ directory.text ∨ b = Bytes.slash) ∧
      (front = [] ∨ ∃ before, front = before ++ [Bytes.slash]) := by
  refine ⟨directory.front, Path.join_front hname.no_slash directory, ?_⟩
  unfold Path.front
  split
  · next hempty =>
    have hnil : directory.text = [] := List.isEmpty_iff.mp hempty
    exact ⟨hnil ▸ List.prefix_refl _, by simp, Or.inl rfl⟩
  split
  · next hslash =>
    refine ⟨List.prefix_refl _, fun b hb => Or.inl hb, Or.inr ?_⟩
    have hlast : directory.text.getLast? = some Bytes.slash := by simpa using hslash
    exact List.getLast?_eq_some_iff.mp hlast
  · exact ⟨List.prefix_append _ _, by simp, Or.inr ⟨_, rfl⟩⟩

lemma IsName.unended_join (hname : IsName name) (directory : Path) : (directory.join name).Unended := by
  obtain ⟨front, hjoin, -, -, -⟩ := hname.join_eq directory
  obtain ⟨last, hlast⟩ : ∃ last, name.getLast? = some last :=
    Option.isSome_iff_exists.mp (by simpa using hname.ne_nil)
  rw [hjoin]
  refine ⟨by simp [hname.ne_nil], ?_⟩
  rw [List.getLast?_append, hlast]
  rintro ⟨⟩
  exact hname.no_slash (List.mem_of_getLast? hlast)

lemma IsName.null_join (hname : IsName name) (hnull : (0 : UInt8) ∈ directory.text) :
    (0 : UInt8) ∈ (directory.join name).text := by
  obtain ⟨front, hjoin, ⟨behind, rfl⟩, -, -⟩ := hname.join_eq directory
  rw [hjoin]
  exact List.mem_append_left _ (List.mem_append_left _ hnull)

lemma IsName.open_join (hname : IsName name) (hdirectory : (0 : UInt8) ∉ directory.text) :
    (directory.join name).Open := by
  refine ⟨hname.unended_join directory, ?_⟩
  obtain ⟨front, hjoin, -, hfront, -⟩ := hname.join_eq directory
  rw [hjoin, List.mem_append, not_or]
  refine ⟨fun hnull => ?_, hname.no_null⟩
  rcases hfront 0 hnull with hmem | hslash
  · exact hdirectory hmem
  · cases hslash

lemma Path.Open.join (h : directory.Open) (hname : IsName name) : (directory.join name).Open :=
  hname.open_join h.no_null

lemma ne_slash_of_no_slash (hslash : Bytes.slash ∉ name) : ∀ b ∈ name.reverse, (b != Bytes.slash) = true := by
  intro b hb
  have hne : b ≠ Bytes.slash := fun heq => hslash (heq ▸ List.mem_reverse.mp hb)
  simpa using hne

lemma not_all_slash_of_no_slash (hne : name ≠ []) (hslash : Bytes.slash ∉ name) (front : Bytes) :
    ¬ ((front ++ name).all (· == Bytes.slash)) = true := by
  obtain ⟨b, hb⟩ := List.exists_mem_of_ne_nil name hne
  have hb' : b ≠ Bytes.slash := fun heq => hslash (heq ▸ hb)
  rw [List.all_eq_true]
  intro hall
  exact hb' (by simpa using hall b (List.mem_append_right _ hb))

lemma IsName.ne_slash (hname : IsName name) : ∀ b ∈ name.reverse, (b != Bytes.slash) = true :=
  ne_slash_of_no_slash hname.no_slash

lemma IsName.not_all_slash (hname : IsName name) (front : Bytes) :
    ¬ ((front ++ name).all (· == Bytes.slash)) = true :=
  not_all_slash_of_no_slash hname.ne_nil hname.no_slash front

lemma IsName.fileName_join (hname : IsName name) (directory : Path) :
    (directory.join name).fileName = name := by
  obtain ⟨front, hjoin, -, -, hfront⟩ := hname.join_eq directory
  rw [hjoin, Path.fileName, List.reverse_append, List.takeWhile_append_of_pos hname.ne_slash]
  rcases hfront with rfl | ⟨before, rfl⟩ <;> simp

lemma Path.Unended.parent_join (h : directory.Unended) (hname : IsName name) :
    (directory.join name).parent = directory := by
  have hdrop : (name.reverse ++ Bytes.slash :: directory.text.reverse).dropWhile (· != Bytes.slash) =
      Bytes.slash :: directory.text.reverse := by
    rw [List.dropWhile_append_of_pos hname.ne_slash, List.dropWhile_cons_of_neg (by simp)]
  have htrim : directory.text.reverse.dropWhile (· == Bytes.slash) = directory.text.reverse := by
    rcases hback : directory.text.reverse with _ | ⟨b, rest⟩
    · rfl
    · have hb : b ≠ Bytes.slash := by
        rintro rfl
        refine h.no_slash ?_
        rw [← List.reverse_reverse directory.text, hback, List.getLast?_reverse]
        rfl
      rw [List.dropWhile_cons_of_neg (by simpa using hb)]
  have hslashes : ¬ ((directory.text ++ Bytes.slash :: name).all (· == Bytes.slash)) = true := by
    rw [List.append_cons]
    exact hname.not_all_slash _
  rw [h.join_eq hname, Path.parent, if_neg hslashes]
  simp only [Path.trimEnd, List.reverse_append, List.reverse_cons, List.append_assoc,
    List.singleton_append, hdrop, List.reverse_reverse]
  simp [htrim, h.ne_nil]

namespace Disk

variable {disk : Disk} {here : Standing} {follow : Bool} {path : Path} {key : Key}

lemma systemText_eq (h : (0 : UInt8) ∉ path.text) : systemText path = path.text := by
  have hwhile : (path.text ++ []).takeWhile (· != 0) = path.text ++ [] := by
    refine List.takeWhile_append_of_pos fun b hb => ?_
    have hne : b ≠ 0 := fun heq => h (heq ▸ hb)
    simpa using hne
  simpa [systemText] using hwhile

/-- A path is cut off before the names behind a null byte, so they make no difference. -/
lemma resolve_join_of_null (hname : IsName name) (hnull : (0 : UInt8) ∈ path.text) :
    disk.resolve here follow (path.join name) = disk.resolve here follow path := by
  have htext : systemText (path.join name) = systemText path := by
    obtain ⟨front, hjoin, ⟨behind, rfl⟩, -, -⟩ := hname.join_eq path
    obtain ⟨before, after, htext, hbefore⟩ := List.eq_append_cons_of_mem hnull
    have hcut : ∀ back : Bytes, (path.text ++ back).takeWhile (· != 0) = before := by
      intro back
      rw [htext, List.append_assoc, List.takeWhile_append_of_pos]
      · simp
      · intro b hb
        have hne : b ≠ 0 := fun heq => hbefore (heq ▸ hb)
        simpa using hne
    have hwhole := hcut []
    rw [List.append_nil] at hwhole
    rw [systemText, systemText, hjoin, hwhole, List.append_assoc, hcut]
  rw [resolve, resolve, htext]

/-! ### Ways -/

/-- A place is that of a name in a directory, unless a link of that name is followed. -/
def NamedIn (disk : Disk) (follow : Bool) (name : Bytes) (base key : Key) : Prop :=
  (follow = true → ∀ target, disk.find? (base ++ [name]) ≠ some (.link target)) → key = base ++ [name]

lemma wayNames_append {onWay onWay' : Key → Bytes → List Bytes → Way} (hname : IsName name)
    (hlink : ∀ parent target rest, (onWay' parent target (rest ++ [name])).goal = some (.inside key) →
      ∃ base, (onWay parent target rest).goal = some (.inside base) ∧
        disk.NamedIn follow name base key)
    {names : List Bytes}
    (h : (disk.wayNames follow onWay' here (names ++ [name])).goal = some (.inside key)) :
    ∃ base, (disk.wayNames true onWay here names).goal = some (.inside base) ∧
      disk.NamedIn follow name base key := by
  have hdot : ¬(name.isEmpty || name == [Bytes.dot]) = true := by
    simp [hname.ne_nil, hname.ne_dot]
  have hup : ¬(name == [Bytes.dot, Bytes.dot]) = true := by
    simpa using hname.ne_up
  induction names generalizing here with
  | nil =>
    simp only [List.nil_append, wayNames, if_neg hdot, if_neg hup] at h
    cases here with
    | detached parent => cases h
    | inside base =>
      refine ⟨base, rfl, fun hnot => ?_⟩
      dsimp only at h
      rcases hfind : disk.find? (base ++ [name]) with _ | entry
      · simpa [hfind, eq_comm] using h
      · cases entry with
        | link target =>
          have hfollow : follow = false := by
            by_contra htrue
            exact hnot (by simpa using htrue) target hfind
          simpa [hfind, hfollow, eq_comm] using h
        | _ => simpa [hfind, eq_comm] using h
  | cons first rest ih =>
    simp only [List.cons_append, wayNames] at h ⊢
    split at h
    · next hempty => simpa only [hempty, if_true] using ih h
    next hempty =>
    rw [if_neg hempty]
    split at h
    · next htwo => simpa only [htwo, if_true] using ih h
    next htwo =>
    rw [if_neg htwo]
    cases here with
    | detached parent => cases h
    | inside parent =>
      dsimp only at h ⊢
      rcases hfind : disk.find? (parent ++ [first]) with _ | entry
      · simp only [hfind] at h ⊢
        exact ih h
      · cases entry with
        | link target =>
          -- The link is on the way of both paths, so the last name goes along to its target.
          simp only [hfind] at h ⊢
          simpa using hlink parent target rest (by simpa using h)
        | _ =>
          simp only [hfind] at h ⊢
          exact ih h

lemma wayFrom_append {links : Nat} (hname : IsName name) {names : List Bytes}
    (h : (disk.wayFrom follow links here (names ++ [name])).goal = some (.inside key)) :
    ∃ base, (disk.wayFrom true links here names).goal = some (.inside base) ∧
      disk.NamedIn follow name base key := by
  induction links generalizing here names with
  | zero =>
    refine wayNames_append hname (fun _ _ _ hlink => ?_) h
    cases hlink
  | succ links ih =>
    refine wayNames_append hname (fun parent target rest hlink => ?_) h
    rw [← List.append_assoc] at hlink
    exact ih hlink

/-- **A name behind a path** leads into the directory that the path leads to. -/
theorem aim_join (hdirectory : directory.Open) (hname : IsName name)
    (h : disk.aim here follow (directory.join name) = some key) :
    ∃ base, disk.aim here true directory = some base ∧ disk.NamedIn follow name base key := by
  have hjoined : (directory.join name).Open := hdirectory.join hname
  have hhead : startOf here (directory.text ++ Bytes.slash :: name) = startOf here directory.text := by
    obtain ⟨first, hfirst⟩ : ∃ first, directory.text.head? = some first :=
      Option.isSome_iff_exists.mp (by simpa using hdirectory.ne_nil)
    rw [startOf, List.head?_append, hfirst, startOf, hfirst]
    rfl
  rw [aim_eq_some] at h
  unfold way at h
  rw [systemText_eq hjoined.no_null, hdirectory.join_eq hname] at h
  dsimp only at h
  split at h
  · cases h
  split at h
  · cases h
  next hlong =>
  -- The name is the last part of the path, and the path starts where its front starts.
  rw [hhead, Bytes.splitOn_behind hname.no_slash] at h
  obtain ⟨base, hbase, hnamed⟩ := wayFrom_append hname h
  refine ⟨base, ?_, hnamed⟩
  have hempty : ¬ directory.text.isEmpty = true := by
    rw [List.isEmpty_iff]
    exact hdirectory.ne_nil
  have hshort : ¬ longestPath < directory.text.length := by
    rw [List.length_append, List.length_cons] at hlong
    omega
  rw [aim_eq_some]
  unfold way
  rw [systemText_eq hdirectory.no_null]
  dsimp only
  rwa [if_neg hempty, if_neg hshort]

end Disk

end Chronicle
