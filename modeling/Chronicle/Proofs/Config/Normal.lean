import Chronicle.Path
import Chronicle.Proofs.Bytes.Split

/-!
Absolute paths in normal form.

A path in normal form is names with one slash in front of each, none of them a dot or two dots, and at most one
slash behind them all; the root is in normal form however many slashes it is written with. Normalising an
absolute path brings it into this form, and leaves a path that has it as it is.
-/

namespace Chronicle.Path

variable {path : Path} {name : Bytes} {names : List Bytes} {state : Normalizing}

/-- A name that is kept when a path is normalised. -/
structure IsKept (name : Bytes) : Prop where
  ne_nil : name ≠ []
  ne_dot : name ≠ [Bytes.dot]
  ne_up : name ≠ [Bytes.dot, Bytes.dot]
  no_slash : Bytes.slash ∉ name

/-- An absolute path with nothing left to normalise. -/
inductive IsNormal : Path → Prop
  | root {text : Bytes} (hne : text ≠ []) (hslashes : ∀ b ∈ text, b = Bytes.slash) : IsNormal ⟨text⟩
  | named {names : List Bytes} (trailing : Bool) (hne : names ≠ []) (hnames : ∀ name ∈ names, IsKept name) :
      IsNormal ⟨Bytes.joinedAfter [Bytes.slash] names ++ if trailing then [Bytes.slash] else []⟩

lemma IsNormal.isAbsolute (h : path.IsNormal) : path.isAbsolute = true := by
  cases h with
  | @root text hne hslashes =>
    obtain ⟨b, rest, rfl⟩ := List.exists_cons_of_ne_nil hne
    simp [Path.isAbsolute, hslashes b (List.mem_cons_self ..)]
  | @named names trailing hne hnames =>
    obtain ⟨first, rest, rfl⟩ := List.exists_cons_of_ne_nil hne
    simp [Path.isAbsolute, Bytes.joinedAfter]

/-! ### One name after the other -/

lemma Normalizing.step_kept (hname : IsKept name) (state : Normalizing) :
    state.step name = ⟨name :: state.names, false⟩ := by
  simp [Normalizing.step, hname.ne_nil, hname.ne_dot, hname.ne_up]

lemma Normalizing.step_names (hstate : ∀ kept ∈ state.names, IsKept kept) (hslash : Bytes.slash ∉ name) :
    ∀ kept ∈ (state.step name).names, IsKept kept := by
  unfold Normalizing.step
  split
  · exact hstate
  next hskipped =>
  simp only [Bool.or_eq_true, List.isEmpty_iff, beq_iff_eq, not_or] at hskipped
  split
  · exact fun kept hmem => hstate kept (List.mem_of_mem_tail hmem)
  next hup =>
  rw [beq_iff_eq] at hup
  intro kept hmem
  rcases List.mem_cons.mp hmem with rfl | hmem
  · exact ⟨hskipped.1, hskipped.2, hup, hslash⟩
  · exact hstate kept hmem

lemma Normalizing.foldl_names (hstate : ∀ kept ∈ state.names, IsKept kept)
    (hnames : ∀ name ∈ names, Bytes.slash ∉ name) :
    ∀ kept ∈ (names.foldl Normalizing.step state).names, IsKept kept := by
  induction names generalizing state with
  | nil => exact hstate
  | cons name names ih =>
    exact ih (step_names hstate (hnames name (List.mem_cons_self ..))) fun name hmem =>
      hnames name (List.mem_cons_of_mem _ hmem)

lemma Normalizing.foldl_kept (hnames : ∀ name ∈ names, IsKept name) (hne : names ≠ []) (state : Normalizing) :
    names.foldl Normalizing.step state = ⟨names.reverse ++ state.names, false⟩ := by
  induction names generalizing state with
  | nil => exact absurd rfl hne
  | cons name rest ih =>
    rw [List.foldl_cons, step_kept (hnames name (List.mem_cons_self ..))]
    by_cases hrest : rest = []
    · simp [hrest]
    · rw [ih (fun kept hmem => hnames kept (List.mem_cons_of_mem _ hmem)) hrest]
      simp

lemma Normalizing.finish_isNormal (hstate : ∀ kept ∈ state.names, IsKept kept) : state.finish.IsNormal := by
  unfold Normalizing.finish
  split
  · exact .root (by simp) (by simp)
  · next hempty =>
    rw [List.isEmpty_iff] at hempty
    exact .named state.trailing (by simpa using hempty) (by simpa using hstate)

/-! ### Whole paths -/

/-- **Normalising an absolute path** gives a path in normal form. -/
theorem isNormal_normalized (habsolute : path.isAbsolute = true) : path.normalized.IsNormal := by
  unfold normalized
  split
  · next hslashes =>
    refine .root (fun hnil => ?_) (by simpa using hslashes)
    rw [Path.isAbsolute, hnil] at habsolute
    cases habsolute
  · refine Normalizing.finish_isNormal (Normalizing.foldl_names (List.forall_mem_nil _) fun name hmem => ?_)
    exact Bytes.not_mem_of_mem_splitOn hmem

/-- **A path in normal form** is left as it is. -/
theorem IsNormal.normalized_eq (h : path.IsNormal) : path.normalized = path := by
  cases h with
  | root hne hslashes => exact if_pos (by simpa using hslashes)
  | @named names trailing hne hnames =>
    have hsplit : ∀ parts : List Bytes, (∀ part ∈ parts, Bytes.slash ∉ part) →
        Bytes.splitOn Bytes.slash (Bytes.joinedAfter [Bytes.slash] parts) = [] :: parts :=
      fun parts hparts => Bytes.splitOn_append_joinedAfter List.not_mem_nil hparts
    have hsome : ¬ ((Bytes.joinedAfter [Bytes.slash] names ++ if trailing then [Bytes.slash] else []).all
        (· == Bytes.slash)) = true := by
      obtain ⟨first, rest, rfl⟩ := List.exists_cons_of_ne_nil hne
      have hfirst : IsKept first := hnames first (List.mem_cons_self ..)
      obtain ⟨b, hb⟩ := List.exists_mem_of_ne_nil first hfirst.ne_nil
      have hslash : b ≠ Bytes.slash := fun heq => hfirst.no_slash (heq ▸ hb)
      intro hall
      rw [List.all_eq_true] at hall
      exact hslash (by simpa using hall b (by simp [Bytes.joinedAfter, hb]))
    have hslashes : ∀ name ∈ names, Bytes.slash ∉ name := fun name hmem => (hnames name hmem).no_slash
    unfold normalized
    rw [if_neg hsome]
    cases trailing with
    | false =>
      have hrun : (Normalizing.step {} []).names = [] := rfl
      rw [if_neg Bool.false_ne_true, List.append_nil, hsplit names hslashes, List.foldl_cons,
        Normalizing.foldl_kept hnames hne, hrun]
      simp [Normalizing.finish, hne]
    | true =>
      -- The slash at the end stands in front of an empty last name.
      have hlast : Bytes.joinedAfter [Bytes.slash] names ++ [Bytes.slash] =
          Bytes.joinedAfter [Bytes.slash] (names ++ [[]]) := by simp [Bytes.joinedAfter]
      have hparts : ∀ part ∈ names ++ [[]], Bytes.slash ∉ part := by
        simpa [or_imp, forall_and] using hslashes
      rw [if_pos rfl, hlast, hsplit _ hparts, List.foldl_cons, List.foldl_append,
        Normalizing.foldl_kept hnames hne]
      simp [Normalizing.step, Normalizing.finish, hne, hlast]

end Chronicle.Path
