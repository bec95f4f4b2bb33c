import Chronicle.Proofs.Disk.Joined

/-!
Names that the system cuts off, and names that it refuses.

The system sees a path up to its first null byte, so a name with null bytes behind a path leads where its
beginning leads. A name that is longer than names can be leads nowhere, whatever is on the disk, and so does a
path that is longer than paths can be.
-/

namespace Chronicle

variable {directory : Path} {name : Bytes}

/-! ### Texts -/

lemma Path.parent_front (hne : name ≠ []) (hslash : Bytes.slash ∉ name) (directory : Path) :
    (directory.join name).parent =
      let front := trimEnd (· != Bytes.slash) directory.front
      let trimmed := trimEnd (· == Bytes.slash) front
      if trimmed.isEmpty && !front.isEmpty then ⟨[Bytes.slash]⟩ else ⟨trimmed⟩ := by
  have hfront : trimEnd (· != Bytes.slash) (directory.front ++ name) =
      trimEnd (· != Bytes.slash) directory.front := by
    rw [trimEnd, trimEnd, List.reverse_append, List.dropWhile_append_of_pos (ne_slash_of_no_slash hslash)]
  rw [join_front hslash, parent, if_neg (not_all_slash_of_no_slash hne hslash _), hfront]

namespace Disk

variable {disk : Disk} {here : Standing} {follow : Bool} {base : Key}

/-! ### Null bytes -/

/-- The part of a name that the system sees. -/
def seen (name : Bytes) : Bytes := name.takeWhile (· != 0)

lemma seen_subset (name : Bytes) : seen name ⊆ name := (List.takeWhile_prefix _).subset

lemma seen_no_null (name : Bytes) : (0 : UInt8) ∉ seen name := by
  intro hmem
  have hne := List.mem_takeWhile_imp hmem
  cases hne

lemma seen_append {before : Bytes} (h : (0 : UInt8) ∉ before) (behind : Bytes) :
    seen (before ++ behind) = before ++ seen behind := by
  refine List.takeWhile_append_of_pos fun b hb => ?_
  have hb' : b ≠ 0 := fun heq => h (heq ▸ hb)
  simpa using hb'

/-- A name behind a path leads where the part of it that the system sees leads. -/
lemma resolve_join_seen (hslash : Bytes.slash ∉ name) (hnull : (0 : UInt8) ∉ directory.text)
    (disk : Disk) (here : Standing) (follow : Bool) :
    systemText (directory.join name) = (directory.join (seen name)).text ∧
      disk.resolve here follow (directory.join name) =
        disk.resolve here follow (directory.join (seen name)) := by
  have hslash' : Bytes.slash ∉ seen name := fun hmem => hslash (seen_subset name hmem)
  have hfront := Path.front_no_null hnull
  have hsees : systemText (directory.join name) = (directory.join (seen name)).text := by
    rw [Path.join_front hslash, Path.join_front hslash']
    exact seen_append hfront name
  have hwhole : systemText (directory.join (seen name)) = (directory.join (seen name)).text := by
    rw [Path.join_front hslash']
    refine systemText_eq ?_
    rw [List.mem_append, not_or]
    exact ⟨hfront, seen_no_null name⟩
  refine ⟨hsees, ?_⟩
  rw [resolve, resolve, hsees, hwhole]

/-! ### Names and paths that are too long -/

lemma walkNames_too_long {onLink : Key → Bytes → List Bytes → Except Errno Place}
    (hname : IsName name) (hlong : longestName < name.length)
    (hlink : ∀ parent target rest, ∃ reason, onLink parent target (rest ++ [name]) = .error reason)
    (names : List Bytes) :
    ∃ reason, disk.walkNames follow onLink here (names ++ [name]) = .error reason := by
  induction names generalizing here with
  | nil =>
    rw [List.nil_append]
    by_cases hhere : disk.standingEntry here = some .directory
    · have hnot : ¬ Plain name := fun hplain => hplain.short hlong
      refine ⟨.nameTooLong, ?_⟩
      rw [walkNames_cons hhere hnot, if_neg (by simp [hname.ne_nil, hname.ne_dot]),
        if_neg (by simpa using hname.ne_up)]
    · exact ⟨_, walkNames_nowhere hhere⟩
  | cons first rest ih =>
    rw [List.cons_append]
    by_cases hhere : disk.standingEntry here ≠ some .directory
    · exact ⟨_, walkNames_nowhere hhere⟩
    rw [not_not] at hhere
    by_cases hfirst : ¬ Plain first
    · rw [walkNames_cons hhere hfirst]
      split
      · exact ih
      split
      · exact ih
      · exact ⟨_, rfl⟩
    rw [not_not] at hfirst
    -- The walk goes on over this name, or ends at it with another reason.
    cases here with
    | detached parent => exact ⟨_, walkNames_detached hfirst⟩
    | inside parent =>
      rw [walkNames_name hhere hfirst]
      have hmore : (rest ++ [name]).all (·.isEmpty) = false := by simp [hname.ne_nil]
      have hsome : (rest ++ [name]).isEmpty = false := by simp
      rcases hfind : disk.find? (parent ++ [first]) with _ | entry
      · exact ⟨_, by rw [hmore]; rfl⟩
      · cases entry with
        | link target =>
          simp only [hsome, Bool.false_and, Bool.false_eq_true, if_false]
          exact hlink parent target rest
        | _ => exact ih

lemma resolveNames_too_long (hname : IsName name) (hlong : longestName < name.length) (links : Nat)
    (names : List Bytes) :
    ∃ reason, disk.resolveNames follow links here (names ++ [name]) = .error reason := by
  induction links generalizing here names with
  | zero => exact walkNames_too_long hname hlong (fun _ _ _ => ⟨_, rfl⟩) names
  | succ links ih =>
    refine walkNames_too_long hname hlong (fun parent target rest => ?_) names
    rw [← List.append_assoc]
    exact ih _

/-- **A path that is too long leads nowhere**, on any disk, and so does one whose last name is. -/
theorem resolve_too_long (hname : IsName name) (hnull : (0 : UInt8) ∉ directory.text)
    (hlong : ¬ (name.length ≤ longestName ∧ (directory.join name).text.length ≤ longestPath))
    (disk : Disk) (here : Standing) (follow : Bool) :
    ∃ reason, disk.resolve here follow (directory.join name) = .error reason := by
  have hopen := hname.open_join hnull
  have hempty : ¬ (directory.join name).text.isEmpty = true := by
    rw [List.isEmpty_iff]
    exact hopen.ne_nil
  rw [resolve, systemText_eq hopen.no_null, if_neg hempty]
  by_cases hpath : longestPath < (directory.join name).text.length
  · exact ⟨.nameTooLong, if_pos hpath⟩
  · rw [if_neg hpath]
    obtain ⟨names, back, -, -, hjoined⟩ := splitOn_join hname directory
    rw [hjoined]
    refine resolveNames_too_long hname ?_ mostLinks names
    omega

/-! ### Directories -/

lemma opens_of_resolve (hnull : (0 : UInt8) ∉ directory.text)
    (h : disk.resolve here true directory = .ok (.present (.inside base) .directory)) :
    disk.Opens here directory base ∧ directory.text.length ≤ longestPath := by
  unfold resolve at h
  rw [systemText_eq hnull] at h
  dsimp only at h
  split at h
  · cases h
  split at h
  · cases h
  next hlong => exact ⟨h, Nat.not_lt.mp hlong⟩

lemma resolve_of_join {key : Key} {entry : Entry} (hdirectory : directory.Open)
    (hname : IsName name) (h : disk.resolve here false (directory.join name) = .ok (.present (.inside key) entry)) :
    ∃ base, key = base ++ [name] ∧ disk.resolve here true directory = .ok (.present (.inside base) .directory) := by
  have hshort : name.length ≤ longestName ∧ (directory.join name).text.length ≤ longestPath := by
    by_contra hlong
    obtain ⟨reason, hreason⟩ := resolve_too_long hname hdirectory.no_null hlong disk here false
    rw [h] at hreason
    cases hreason
  have hfits : Fits directory name := ⟨hname, hshort.1, hshort.2, hdirectory.no_null⟩
  obtain ⟨base, hopens⟩ : ∃ base, disk.Opens here directory base := by
    by_contra hnone
    obtain ⟨reason, hreason⟩ := resolve_join_of_not_opens hfits fun base hbase => hnone ⟨base, hbase⟩
    rw [h] at hreason
    cases hreason
  have hleads : disk.Leads here false (directory.join name) (base ++ [name]) :=
    hopens.leads hfits fun hfollow => nomatch hfollow
  refine ⟨base, Option.some.inj ((aim_of_present h).symm.trans hleads.aim_eq), ?_⟩
  have hempty : ¬ directory.text.isEmpty = true := by
    rw [List.isEmpty_iff]
    exact hdirectory.ne_nil
  have hlength : ¬ longestPath < directory.text.length := by
    have hjoined := hshort.2
    rw [hdirectory.join_eq hname, List.length_append] at hjoined
    omega
  rw [Disk.resolve, systemText_eq hdirectory.no_null, if_neg hempty, if_neg hlength]
  exact hopens

lemma status_parent_of_resolve (hnull : (0 : UInt8) ∉ directory.text) (hne : name ≠ [])
    (hslash : Bytes.slash ∉ name)
    (h : disk.resolve here true directory = .ok (.present (.inside base) .directory))
    (hparent : (directory.join name).parent.text ≠ []) :
    disk.status here (directory.join name).parent = .ok ⟨.directory, 0⟩ := by
  obtain ⟨hopens, hlong⟩ := opens_of_resolve hnull h
  have hletter : IsName (utf8 "a") := ⟨by decide, by decide, by decide, by decide, by decide⟩
  obtain ⟨count, htext⟩ := parent_join hletter directory
  -- Above the name is what is above any other.
  have hsame : (directory.join name).parent = (directory.join (utf8 "a")).parent := by
    rw [Path.parent_front hne hslash, Path.parent_front hletter.ne_nil hletter.no_slash]
  rw [hsame] at hparent ⊢
  refine hopens.status_trimmed htext hparent hnull ?_
  have hlength := congrArg List.length htext
  rw [List.length_append] at hlength
  omega

end Disk

end Chronicle
