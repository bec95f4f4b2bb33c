import Chronicle.Proofs.Disk.Made
import Chronicle.Proofs.Disk.Names
import Mathlib.Data.List.TakeWhile

/-!
Where a name behind a path leads.

A directory that is opened by a path is the one in which names behind the path are looked up: the path may
end in slashes, and behind no path at all it is the working directory. A name behind the path leads to the
entry of that name in this directory, whatever links the path goes over, and it leads nowhere where
the path opens no directory. Slashes at the end of a path make no difference to the directory that it opens.
-/

namespace Chronicle.Disk

variable {disk disk' : Disk} {here : Standing} {follow : Bool} {path directory : Path} {key base : Key}
  {name : Bytes}

/-- What the names of a path lead to, all links followed; no names lead to the working directory. -/
def lookUp (disk : Disk) (here : Standing) (path : Path) : Except Errno Place :=
  disk.resolveNames true mostLinks (startOf here path.text) (Bytes.splitOn Bytes.slash path.text)

/-- Names behind a path are looked up in this directory. -/
def Opens (disk : Disk) (here : Standing) (path : Path) (base : Key) : Prop :=
  disk.lookUp here path = .ok (.present (.inside base) .directory)

/-- Where a name leads behind a path that leads to a place. -/
def entered (disk : Disk) (name : Bytes) : Except Errno Place → Option Place
  | .ok (.present (.inside base) .directory) => some (disk.placeAt (base ++ [name]))
  | _ => none

lemma entered_eq_none {result : Except Errno Place}
    (h : ∀ base, result ≠ .ok (.present (.inside base) .directory)) : disk.entered name result = none := by
  unfold entered
  split
  · next base => exact absurd rfl (h base)
  · rfl

/-! ### One name more -/

lemma walkNames_nowhere {onLink : Key → Bytes → List Bytes → Except Errno Place} {rest : List Bytes}
    (hhere : disk.standingEntry here ≠ some .directory) :
    disk.walkNames follow onLink here (name :: rest) = .error .notDirectory := by
  simp only [walkNames, if_pos hhere]

/-- A link of this name is not where a name behind a directory would be followed to. -/
def Unlinked (disk : Disk) (follow : Bool) (name : Bytes) (result : Except Errno Place) : Prop :=
  ∀ base, result = .ok (.present (.inside base) .directory) → follow = true →
    ∀ target, disk.find? (base ++ [name]) ≠ some (.link target)

lemma walkNames_entered {onLink onLink' : Key → Bytes → List Bytes → Except Errno Place}
    {back : List Bytes} (hback : back.all (·.isEmpty) = true) (hname : Plain name)
    (hlink : ∀ parent target rest, Unlinked disk follow name (onLink parent target (rest ++ back)) →
      (onLink' parent target (rest ++ [name])).toOption =
        disk.entered name (onLink parent target (rest ++ back)))
    {names : List Bytes}
    (hnot : Unlinked disk follow name (disk.walkNames true onLink here (names ++ back))) :
    (disk.walkNames follow onLink' here (names ++ [name])).toOption =
      disk.entered name (disk.walkNames true onLink here (names ++ back)) := by
  induction names generalizing here with
  | nil =>
    rw [List.nil_append] at hnot
    rw [List.nil_append, List.nil_append]
    by_cases hhere : disk.standingEntry here ≠ some .directory
    · rw [entered_eq_none]
      · rw [walkNames_nowhere hhere]
        rfl
      · intro base hbase
        obtain ⟨-, entry, hentry, hplace⟩ := walkNames_behind hhere hbase
        cases hplace
        exact hhere hentry
    rw [not_not] at hhere
    rw [walkNames_of_empty hhere hback] at hnot ⊢
    cases here with
    | detached parent =>
      rw [walkNames_detached hname]
      rfl
    | inside base =>
      rw [walkNames_name hhere hname, entered, placeAt]
      rcases hfind : disk.find? (base ++ [name]) with _ | entry
      · rfl
      · cases entry with
        | link target =>
          have hfollow : follow = false := by
            by_contra hfollow
            exact hnot base rfl (by simpa using hfollow) target hfind
          simp [hfollow, Except.toOption]
        | _ => simp [walkNames, standingEntry, hfind, Except.toOption]
  | cons first rest ih =>
    rw [List.cons_append] at hnot ⊢
    by_cases hhere : disk.standingEntry here ≠ some .directory
    · rw [List.cons_append, walkNames_nowhere hhere, walkNames_nowhere hhere]
      rfl
    rw [not_not] at hhere
    by_cases hfirst : ¬ Plain first
    · rw [walkNames_cons hhere hfirst] at hnot
      rw [List.cons_append, walkNames_cons hhere hfirst, walkNames_cons hhere hfirst]
      split
      · next hdot =>
        rw [if_pos hdot] at hnot
        exact ih hnot
      next hdot =>
      rw [if_neg hdot] at hnot
      split
      · next hup =>
        rw [if_pos hup] at hnot
        exact ih hnot
      · rfl
    rw [not_not] at hfirst
    cases here with
    | detached parent =>
      rw [List.cons_append, walkNames_detached hfirst, walkNames_detached hfirst]
      rfl
    | inside parent =>
      rw [walkNames_name hhere hfirst] at hnot
      rw [List.cons_append, walkNames_name hhere hfirst, walkNames_name hhere hfirst]
      -- With the name behind it, no name is the last one any more.
      have hmore : ((rest ++ [name]).all (·.isEmpty)) = false := by
        have hempty : name.isEmpty = false := by
          have hdot := hname.not_dot
          simp only [Bool.or_eq_true, not_or] at hdot
          simpa using hdot.1
        simp [hempty]
      rcases hfind : disk.find? (parent ++ [first]) with _ | entry
      · simp only [hmore, Bool.false_eq_true, if_false]
        split <;> rfl
      · cases entry with
        | link target =>
          simp only [hfind, Bool.not_true, Bool.and_false, Bool.false_eq_true, if_false] at hnot
          simpa using hlink parent target rest hnot
        | _ =>
          rw [hfind] at hnot
          exact ih hnot

lemma resolveNames_entered {back : List Bytes} (hback : back.all (·.isEmpty) = true)
    (hname : Plain name) {links : Nat} {names : List Bytes}
    (hnot : Unlinked disk follow name (disk.resolveNames true links here (names ++ back))) :
    (disk.resolveNames follow links here (names ++ [name])).toOption =
      disk.entered name (disk.resolveNames true links here (names ++ back)) := by
  induction links generalizing here names with
  | zero => exact walkNames_entered hback hname (fun _ _ _ _ => rfl) hnot
  | succ links ih =>
    refine walkNames_entered hback hname (fun parent target rest hfree => ?_) hnot
    rw [← List.append_assoc] at hfree ⊢
    rw [← List.append_assoc]
    exact ih hfree

/-! ### Slashes at the end -/

lemma walkNames_trimmed {onLink onLink' : Key → Bytes → List Bytes → Except Errno Place}
    {back : List Bytes} (hback : back.all (·.isEmpty) = true)
    (hlink : ∀ parent target rest place,
      onLink' parent target (rest ++ back) = .ok (.present place .directory) →
      onLink parent target rest = .ok (.present place .directory))
    {names : List Bytes} {place : Standing}
    (h : disk.walkNames true onLink' here (names ++ back) = .ok (.present place .directory)) :
    disk.walkNames true onLink here names = .ok (.present place .directory) := by
  induction names generalizing here with
  | nil =>
    rw [List.nil_append] at h
    by_cases hhere : disk.standingEntry here ≠ some .directory
    · obtain ⟨-, entry, hentry, hplace⟩ := walkNames_behind hhere h
      cases hplace
      exact absurd hentry hhere
    rw [not_not] at hhere
    -- Empty names at the end do not lead away from a directory.
    rw [walkNames_of_empty hhere hback] at h
    rw [walkNames_of_empty hhere rfl, h]
  | cons first rest ih =>
    rw [List.cons_append] at h
    by_cases hhere : disk.standingEntry here ≠ some .directory
    · rw [walkNames_nowhere hhere] at h
      cases h
    rw [not_not] at hhere
    by_cases hfirst : ¬ Plain first
    · rw [walkNames_cons hhere hfirst] at h ⊢
      split at h
      · next hdot =>
        rw [if_pos hdot]
        exact ih h
      next hdot =>
      rw [if_neg hdot]
      split at h
      · next hup =>
        rw [if_pos hup]
        exact ih h
      · cases h
    rw [not_not] at hfirst
    cases here with
    | detached parent =>
      rw [walkNames_detached hfirst] at h
      cases h
    | inside parent =>
      rw [walkNames_name hhere hfirst] at h ⊢
      rcases hfind : disk.find? (parent ++ [first]) with _ | entry
      · simp only [hfind] at h
        split at h <;> cases h
      · cases entry with
        | link target =>
          simp only [hfind, Bool.not_true, Bool.and_false, Bool.false_eq_true, if_false] at h ⊢
          exact hlink parent target rest place h
        | _ =>
          simp only [hfind] at h ⊢
          exact ih h

lemma resolveNames_trimmed {back : List Bytes} (hback : back.all (·.isEmpty) = true) {links : Nat}
    {names : List Bytes} {place : Standing}
    (h : disk.resolveNames true links here (names ++ back) = .ok (.present place .directory)) :
    disk.resolveNames true links here names = .ok (.present place .directory) := by
  induction links generalizing here names place with
  | zero =>
    refine walkNames_trimmed hback (fun _ _ _ _ hlink => ?_) h
    cases hlink
  | succ links ih =>
    refine walkNames_trimmed hback (fun _ _ _ _ hlink => ?_) h
    rw [← List.append_assoc] at hlink
    exact ih hlink

lemma splitOn_slashes (text : Bytes) (count : Nat) :
    Bytes.splitOn Bytes.slash (text ++ List.replicate count Bytes.slash) =
      Bytes.splitOn Bytes.slash text ++ List.replicate count [] := by
  induction count with
  | zero => simp
  | succ count ih =>
    have hmore : text ++ List.replicate (count + 1) Bytes.slash =
        (text ++ List.replicate count Bytes.slash) ++ Bytes.slash :: [] := by
      rw [List.replicate_succ', List.append_assoc]
    rw [hmore, Bytes.splitOn_behind List.not_mem_nil, ih, List.append_assoc, List.replicate_succ']

lemma startOf_append {text : Bytes} (hne : text ≠ []) (behind : Bytes) :
    startOf here (text ++ behind) = startOf here text := by
  obtain ⟨first, hfirst⟩ : ∃ first, text.head? = some first :=
    Option.isSome_iff_exists.mp (by simpa using hne)
  rw [startOf, List.head?_append, hfirst, startOf, hfirst]
  rfl

lemma Opens.trimmed {count : Nat} (hne : path.text ≠ [])
    (h : disk.Opens here ⟨path.text ++ List.replicate count Bytes.slash⟩ base) :
    disk.Opens here path base := by
  unfold Opens lookUp at h ⊢
  dsimp only at h
  rw [startOf_append hne, splitOn_slashes] at h
  refine resolveNames_trimmed ?_ h
  simp [List.all_replicate]

/-! ### A name behind a path -/

lemma join_of_slash (hname : IsName name) (hslash : directory.text.getLast? = some Bytes.slash) :
    directory.join name = ⟨directory.text ++ name⟩ := by
  have hempty : directory.isEmpty = false := by
    rw [Path.isEmpty, List.isEmpty_eq_false_iff]
    intro hnil
    rw [hnil] at hslash
    cases hslash
  simp [Path.join, hname.head?, hempty, hslash]

/-- What the names of a path are with a name behind it, and without. -/
lemma splitOn_join (hname : IsName name) (directory : Path) :
    ∃ names back, back.all (·.isEmpty) = true ∧
      Bytes.splitOn Bytes.slash directory.text = names ++ back ∧
      Bytes.splitOn Bytes.slash (directory.join name).text = names ++ [name] := by
  by_cases hne : directory.text = []
  · have hjoin : directory.join name = ⟨name⟩ := by
      simp [Path.join, Path.isEmpty, hne]
    refine ⟨[], [[]], rfl, by rw [hne]; rfl, ?_⟩
    rw [hjoin, Bytes.splitOn_eq, List.splitOn_eq_singleton hname.no_slash]
    rfl
  by_cases hslash : directory.text.getLast? = some Bytes.slash
  · obtain ⟨before, hbefore⟩ := List.getLast?_eq_some_iff.mp hslash
    refine ⟨Bytes.splitOn Bytes.slash before, [[]], rfl, ?_, ?_⟩
    · rw [hbefore, Bytes.splitOn_behind List.not_mem_nil]
    · rw [join_of_slash hname hslash, hbefore, List.append_assoc]
      exact Bytes.splitOn_behind hname.no_slash before
  · refine ⟨Bytes.splitOn Bytes.slash directory.text, [], rfl, (List.append_nil _).symm, ?_⟩
    rw [Path.Unended.join_eq ⟨hne, hslash⟩ hname]
    exact Bytes.splitOn_behind hname.no_slash _

lemma startOf_join (hname : IsName name) (here : Standing) (directory : Path) :
    startOf here (directory.join name).text = startOf here directory.text := by
  by_cases hne : directory.text = []
  · have hjoin : directory.join name = ⟨name⟩ := by
      simp [Path.join, Path.isEmpty, hne]
    rw [hjoin, startOf, hname.head?, hne]
    rfl
  · obtain ⟨front, hjoin, ⟨behind, rfl⟩, -, -⟩ := hname.join_eq directory
    rw [hjoin, List.append_assoc, startOf_append hne]

lemma aim_join_name (hname : IsName name) (hnull : (0 : UInt8) ∉ directory.text)
    (h : disk.aim here false (directory.join name) = some key) : ∃ base, key = base ++ [name] := by
  obtain ⟨names, back, -, -, hjoined⟩ := splitOn_join hname directory
  rw [aim_eq_some, way, systemText_eq (hname.open_join hnull).no_null] at h
  split at h
  · cases h
  split at h
  · cases h
  rw [hjoined] at h
  obtain ⟨base, -, hnamed⟩ := wayFrom_append hname h
  exact ⟨base, hnamed fun hfollow => nomatch hfollow⟩

lemma exists_eq_join (hname : IsName path.fileName) :
    ∃ directory : Path, directory.text <+: path.text ∧ path = directory.join path.fileName := by
  obtain ⟨front, hfront⟩ : ∃ front, front = Path.trimEnd (· != Bytes.slash) path.text := ⟨_, rfl⟩
  have htext : path.text = front ++ path.fileName := by
    rw [hfront, Path.trimEnd, Path.fileName, ← List.reverse_append, List.takeWhile_append_dropWhile,
      List.reverse_reverse]
  refine ⟨⟨front⟩, ⟨path.fileName, htext.symm⟩, ?_⟩
  rcases hback : path.text.reverse.dropWhile (· != Bytes.slash) with _ | ⟨b, rest⟩
  · have hempty : front = [] := by
      rw [hfront, Path.trimEnd, hback]
      rfl
    rw [hempty, List.nil_append] at htext
    rw [hempty, Path.join, Path.isEmpty, ← htext]
    simp
  · have hb : b = Bytes.slash := by
      have hnot := List.head_dropWhile_not (· != Bytes.slash) (l := path.text.reverse) (by simp [hback])
      simpa [hback] using hnot
    have hslash : front.getLast? = some Bytes.slash := by
      rw [hfront, Path.trimEnd, hback, List.getLast?_reverse, hb]
      rfl
    rw [join_of_slash hname hslash, ← htext]

/-- A name behind a path, short enough to be looked up. -/
structure Fits (directory : Path) (name : Bytes) : Prop where
  is_name : IsName name
  short : name.length ≤ longestName
  path_short : (directory.join name).text.length ≤ longestPath
  no_null : (0 : UInt8) ∉ directory.text

lemma Fits.plain (h : Fits directory name) : Plain name where
  not_dot := by simp [h.is_name.ne_nil, h.is_name.ne_dot]
  not_up := by simpa using h.is_name.ne_up
  short := Nat.not_lt.mpr h.short

/-- **A name behind a path** leads to its entry in the directory that the path opens, and nowhere if there
is no such directory. -/
theorem resolve_join (h : Fits directory name)
    (hnot : Unlinked disk follow name (disk.lookUp here directory)) :
    (disk.resolve here follow (directory.join name)).toOption =
      disk.entered name (disk.lookUp here directory) := by
  have hopen := h.is_name.open_join h.no_null
  have hempty : ¬ (directory.join name).text.isEmpty = true := by
    rw [List.isEmpty_iff]
    exact hopen.ne_nil
  unfold lookUp at hnot ⊢
  obtain ⟨names, back, hback, hdirectory, hjoined⟩ := splitOn_join h.is_name directory
  rw [hdirectory] at hnot ⊢
  rw [resolve, systemText_eq hopen.no_null, if_neg hempty, if_neg (Nat.not_lt.mpr h.path_short),
    startOf_join h.is_name, hjoined]
  exact resolveNames_entered hback h.plain hnot

theorem Opens.leads (hopens : disk.Opens here directory base) (h : Fits directory name)
    (hnot : follow = true → ∀ target, disk.find? (base ++ [name]) ≠ some (.link target)) :
    disk.Leads here follow (directory.join name) (base ++ [name]) := by
  refine toOption_eq_some.mp ((resolve_join h fun base' hbase => ?_).trans ?_)
  · rw [hopens] at hbase
    cases hbase
    exact hnot
  · rw [hopens]
    rfl

lemma resolve_join_of_not_opens (h : Fits directory name)
    (hnone : ∀ base, ¬ disk.Opens here directory base) :
    ∃ reason, disk.resolve here follow (directory.join name) = .error reason := by
  have hresolve : (disk.resolve here follow (directory.join name)).toOption = none := by
    rw [resolve_join h fun base hbase => absurd hbase (hnone base), entered_eq_none hnone]
  rcases hplace : disk.resolve here follow (directory.join name) with reason | place
  · exact ⟨reason, rfl⟩
  · rw [hplace] at hresolve
    cases hresolve

/-! ### The directory above a name -/

lemma trimEnd_append (text : Bytes) :
    ∃ count, text = Path.trimEnd (· == Bytes.slash) text ++ List.replicate count Bytes.slash := by
  have hslashes : ∀ b ∈ (text.reverse.takeWhile (· == Bytes.slash)).reverse, b = Bytes.slash := by
    intro b hb
    simpa using List.mem_takeWhile_imp (List.mem_reverse.mp hb)
  refine ⟨(text.reverse.takeWhile (· == Bytes.slash)).length, ?_⟩
  calc text = (text.reverse.takeWhile (· == Bytes.slash) ++
        text.reverse.dropWhile (· == Bytes.slash)).reverse := by
          rw [List.takeWhile_append_dropWhile, List.reverse_reverse]
    _ = _ := by
          rw [List.reverse_append, List.eq_replicate_of_mem hslashes, List.length_reverse]
          rfl

lemma parent_of_slash (hname : IsName name) {front : Bytes}
    (hslash : front.getLast? = some Bytes.slash) :
    (Path.mk (front ++ name)).parent =
      if (Path.trimEnd (· == Bytes.slash) front).isEmpty then ⟨[Bytes.slash]⟩
      else ⟨Path.trimEnd (· == Bytes.slash) front⟩ := by
  obtain ⟨before, rfl⟩ := List.getLast?_eq_some_iff.mp hslash
  have hfront : Path.trimEnd (· != Bytes.slash) (before ++ [Bytes.slash] ++ name) =
      before ++ [Bytes.slash] := by
    rw [Path.trimEnd, List.reverse_append, List.dropWhile_append_of_pos hname.ne_slash]
    simp
  rw [Path.parent, if_neg (hname.not_all_slash _), hfront]
  simp

/-- Above a name stands the path that it was put behind, without the slashes at its end. -/
lemma parent_join (hname : IsName name) (directory : Path) :
    ∃ count, directory.text =
      (directory.join name).parent.text ++ List.replicate count Bytes.slash := by
  by_cases hne : directory.text = []
  · have hjoin : directory.join name = ⟨name⟩ := by
      simp [Path.join, Path.isEmpty, hne]
    have hslashes : ¬ (name.all (· == Bytes.slash)) = true := hname.not_all_slash []
    have hfront : Path.trimEnd (· != Bytes.slash) name = [] := by
      rw [Path.trimEnd, List.reverse_eq_nil_iff, List.dropWhile_eq_nil_iff]
      exact hname.ne_slash
    refine ⟨0, ?_⟩
    rw [hjoin, Path.parent, if_neg hslashes, hfront, hne]
    rfl
  by_cases hslash : directory.text.getLast? = some Bytes.slash
  · obtain ⟨count, htext⟩ := trimEnd_append directory.text
    rw [join_of_slash hname hslash, parent_of_slash hname hslash]
    split
    · next hnone =>
      rw [List.isEmpty_iff] at hnone
      rw [hnone, List.nil_append] at htext
      cases count with
      | zero => exact absurd htext hne
      | succ count => exact ⟨count, htext⟩
    · exact ⟨count, htext⟩
  · refine ⟨0, ?_⟩
    rw [Path.Unended.parent_join ⟨hne, hslash⟩ hname]
    simp

lemma Opens.status_trimmed {above : Path} {count : Nat} (hopens : disk.Opens here directory base)
    (htext : directory.text = above.text ++ List.replicate count Bytes.slash) (hne : above.text ≠ [])
    (hnull : (0 : UInt8) ∉ directory.text) (hlong : above.text.length ≤ longestPath) :
    disk.status here above = .ok ⟨.directory, 0⟩ := by
  have hslashes : disk.Opens here ⟨above.text ++ List.replicate count Bytes.slash⟩ base := by
    rw [← htext]
    exact hopens
  have hopens' := Opens.trimmed hne hslashes
  have hnull' : (0 : UInt8) ∉ above.text := by
    intro hmem
    exact hnull (by rw [htext]; exact List.mem_append_left _ hmem)
  have hempty : ¬ above.text.isEmpty = true := by simpa using hne
  have hresolve : disk.resolve here true above = .ok (.present (.inside base) .directory) := by
    rw [resolve, systemText_eq hnull', if_neg hempty, if_neg (Nat.not_lt.mpr hlong)]
    exact hopens'
  rw [status, hresolve]
  rfl

lemma Opens.status_parent (hopens : disk.Opens here directory base) (h : Fits directory name)
    (hne : (directory.join name).parent.text ≠ []) :
    disk.status here (directory.join name).parent = .ok ⟨.directory, 0⟩ := by
  obtain ⟨count, htext⟩ := parent_join h.is_name directory
  refine hopens.status_trimmed htext hne h.no_null ?_
  have hjoined := h.path_short
  obtain ⟨front, hjoin, hfront, -, -⟩ := h.is_name.join_eq directory
  have hlength := hfront.length_le
  rw [htext, List.length_append] at hlength
  rw [hjoin, List.length_append] at hjoined
  omega

lemma Kept.opens (hkept : Kept (fun _ => False) disk disk') (h : disk.Opens here path base) :
    disk'.Opens here path base := by
  have hthere : disk.find? base = some .directory := resolveNames_isOn true h
  refine hkept.resolveNames (hkept.directory base hthere) (fun _ _ => not_false) ?_
  rw [placeAt_of_find hthere]
  exact h

end Chronicle.Disk
