import Chronicle.Pattern.Search
import Chronicle.Proofs.Pattern.Language

/-!
What a search finds.

The search goes through the ways to match in an order of preference, and lets a loop start two rounds at one
spot at most. None of this can be seen from whether there is a match: a regular pattern is found in a text
exactly if one of its texts occurs there in one piece. For one direction, each way to match takes a text of the
pattern. For the other, each text of the pattern is put together from loop rounds that are not empty, and
such a round is never the second one at its spot.
-/

namespace Chronicle.Pattern

open Computability

/-! ### What is matched is a text of the pattern -/

variable {first greedy : Bool} {loop : Nat} {node : Node} {spot reached : Spot} {text : Bytes}
  {next : Continuation}

lemma eq_some_of_either {again stop : Option Spot}
    (h : (if greedy then again.or stop else stop.or again) = some reached) :
    again = some reached ∨ stop = some reached := by
  split at h
  · exact (Option.or_eq_some_iff.mp h).imp_right And.right
  · exact ((Option.or_eq_some_iff.mp h).imp_right And.right).symm

lemma isSome_either {again stop : Option Spot} (h : again.isSome ∨ stop.isSome) :
    (if greedy then again.or stop else stop.or again).isSome := by
  split <;> simpa [or_comm] using h

lemma loopRounds_succ (loop : Nat) (greedy : Bool) (round : Spot → Continuation → Option Spot)
    (fuel : Nat) (spot : Spot) (next : Continuation) :
    loopRounds loop greedy round (fuel + 1) spot next =
      let again := (spot.startRound? loop).bind fun spot =>
        round spot fun spot => loopRounds loop greedy round fuel spot next
      if greedy then again.or (next spot) else (next spot).or again := by
  simp only [loopRounds, Option.orElse_eq_orElse, Option.orElse_eq_or]

/-- A way to the end that takes a text of the language first. -/
def Takes (language : Language UInt8) (spot : Spot) (next : Continuation) (reached : Spot) : Prop :=
  ∃ word ∈ language, ∃ between, spot.rest = word ++ between.rest ∧ next between = some reached

lemma Spot.rest_startRound? {started : Spot} (h : spot.startRound? loop = some started) :
    started.rest = spot.rest := by
  unfold startRound? at h
  grind

lemma takes_loopRounds {language : Language UInt8} {round : Spot → Continuation → Option Spot}
    (hround : ∀ {spot next}, round spot next = some reached → Takes language spot next reached)
    {fuel : Nat} (h : loopRounds loop greedy round fuel spot next = some reached) :
    Takes language∗ spot next reached := by
  induction fuel generalizing spot with
  | zero => exact ⟨[], Language.nil_mem_kstar _, spot, rfl, h⟩
  | succ fuel ih =>
    rw [loopRounds_succ] at h
    rcases eq_some_of_either h with hagain | hstop
    · obtain ⟨started, hstarted, hagain⟩ := Option.bind_eq_some_iff.mp hagain
      obtain ⟨word, hword, between, hrest, hlater⟩ := hround hagain
      obtain ⟨words, hwords, last, hlast, hnext⟩ := ih hlater
      refine ⟨word ++ words, ?_, last, ?_, hnext⟩
      · rw [← Language.one_add_self_mul_kstar_eq_kstar]
        exact Or.inr (Language.append_mem_mul hword hwords)
      · rw [← Spot.rest_startRound? hstarted, hrest, hlast, List.append_assoc]
    · exact ⟨[], Language.nil_mem_kstar _, spot, rfl, hstop⟩

/-- **A regular pattern takes one of its texts**, and the rest goes on behind it. -/
theorem takes_of_run (regular : node.Regular) (h : run first node spot next = some reached) :
    Takes node.language spot next reached := by
  induction node generalizing spot next with
  | empty => exact ⟨[], rfl, spot, rfl, h⟩
  | one set =>
    rw [run] at h
    split at h
    · cases h
    · next b rest hrest =>
      split at h
      · next hset => exact ⟨[b], ⟨b, hset, rfl⟩, { spot with rest, position := _, previous := _ }, hrest, h⟩
      · cases h
  | seq a b iha ihb =>
    obtain ⟨word, hword, between, hrest, hlater⟩ := iha regular.1 h
    obtain ⟨word', hword', last, hlast, hnext⟩ := ihb regular.2 hlater
    refine ⟨word ++ word', Language.append_mem_mul hword hword', last, ?_, hnext⟩
    rw [hrest, hlast, List.append_assoc]
  | alt a b iha ihb =>
    simp only [run, Option.orElse_eq_orElse, Option.orElse_eq_or] at h
    rcases Option.or_eq_some_iff.mp h with ha | ⟨-, hb⟩
    · obtain ⟨word, hword, hrest⟩ := iha regular.1 ha
      exact ⟨word, Or.inl hword, hrest⟩
    · obtain ⟨word, hword, hrest⟩ := ihb regular.2 hb
      exact ⟨word, Or.inr hword, hrest⟩
  | group index body ih =>
    obtain ⟨word, hword, between, hrest, hnext⟩ := ih regular h
    exact ⟨word, hword, { between with captures := _ :: between.captures }, hrest, hnext⟩
  | star loop greedy body ih => exact takes_loopRounds (ih regular) h
  | plus loop greedy body ih =>
    obtain ⟨word, hword, between, hrest, hlater⟩ := ih regular h
    obtain ⟨words, hwords, last, hlast, hnext⟩ := takes_loopRounds (ih regular) hlater
    -- One round has to be taken; the others are those of a star.
    refine ⟨word ++ words, Language.append_mem_mul hword hwords, last, ?_, hnext⟩
    rw [hrest, hlast, List.append_assoc]
  | opt loop greedy body ih =>
    simp only [run, Option.orElse_eq_orElse, Option.orElse_eq_or] at h
    rcases eq_some_of_either h with honce | hnone
    · obtain ⟨started, hstarted, honce⟩ := Option.bind_eq_some_iff.mp honce
      obtain ⟨word, hword, between, hrest, hnext⟩ := ih regular honce
      exact ⟨word, Or.inr hword, between, (Spot.rest_startRound? hstarted) ▸ hrest, hnext⟩
    · exact ⟨[], Or.inl rfl, spot, rfl, hnone⟩
  | lineStart | lineEnd | boundary _ | look _ _ | reference _ => exact regular.elim

/-! ### Every text of the pattern is matched -/

/-- A loop has started no round at this spot yet. -/
def Spot.Fresh (spot : Spot) (loop : Nat) : Prop :=
  ∀ position count, spot.rounds.lookup loop = some (position, count) → position < spot.position

/-- The spot behind a word, come to by a pattern with these loops. -/
structure Behind (loops : List Nat) (spot : Spot) (word : Bytes) (between : Spot) : Prop where
  rest_eq : spot.rest = word ++ between.rest
  position_eq : between.position = spot.position + word.length
  fresh : ∀ loop ∈ loops, between.Fresh loop
  others : ∀ loop ∉ loops, between.rounds.lookup loop = spot.rounds.lookup loop

variable {loops loops' : List Nat} {word word' rest : Bytes} {started between last : Spot}

lemma Behind.refl (fresh : ∀ loop ∈ loops, spot.Fresh loop) : Behind loops spot [] spot :=
  ⟨rfl, rfl, fresh, fun _ _ => rfl⟩

lemma Behind.fresh_of_notMem (h : Behind loops spot word between) (hloop : loop ∉ loops)
    (fresh : spot.Fresh loop) : between.Fresh loop := by
  intro position count hlookup
  rw [h.others loop hloop] at hlookup
  rw [h.position_eq]
  exact Nat.lt_add_right _ (fresh position count hlookup)

lemma Behind.mono {all : List Nat} (h : Behind loops spot word between) (hsub : loops ⊆ all)
    (fresh : ∀ loop ∈ all, spot.Fresh loop) : Behind all spot word between where
  rest_eq := h.rest_eq
  position_eq := h.position_eq
  fresh loop hloop := by
    by_cases hmem : loop ∈ loops
    · exact h.fresh loop hmem
    · exact h.fresh_of_notMem hmem (fresh loop hloop)
  others loop hloop := h.others loop fun hmem => hloop (hsub hmem)

lemma Behind.trans {all : List Nat} (h : Behind loops spot word between)
    (h' : Behind loops' between word' last) (hall : ∀ loop, loop ∈ all ↔ loop ∈ loops ∨ loop ∈ loops') :
    Behind all spot (word ++ word') last where
  rest_eq := by rw [h.rest_eq, h'.rest_eq, List.append_assoc]
  position_eq := by rw [h'.position_eq, h.position_eq, List.length_append, Nat.add_assoc]
  fresh loop hloop := by
    by_cases hloop' : loop ∈ loops'
    · exact h'.fresh loop hloop'
    · exact h'.fresh_of_notMem hloop' (h.fresh loop (((hall loop).mp hloop).resolve_right hloop'))
  others loop hloop := by
    rw [hall, not_or] at hloop
    rw [h'.others loop hloop.2, h.others loop hloop.1]

lemma lookup_filter_ne {other : Nat} (hne : other ≠ loop) (rounds : List (Nat × Nat × Nat)) :
    (rounds.filter fun entry => entry.1 != loop).lookup other = rounds.lookup other := by
  induction rounds with
  | nil => rfl
  | cons entry rounds ih =>
    obtain ⟨number, round⟩ := entry
    by_cases hnumber : number = loop
    · subst hnumber
      rw [List.filter_cons_of_neg (by simp), ih, List.lookup_cons, beq_false_of_ne hne]
    · rw [List.filter_cons_of_pos (by simpa using hnumber), List.lookup_cons, List.lookup_cons, ih]

lemma Spot.Fresh.startRound? (fresh : spot.Fresh loop) :
    spot.startRound? loop = some { spot with
      rounds := (loop, spot.position, 1) :: spot.rounds.filter fun entry => entry.1 != loop } := by
  unfold Spot.startRound?
  dsimp only
  split
  · next position count hlookup =>
    have hne : position ≠ spot.position := Nat.ne_of_lt (fresh position count hlookup)
    rw [if_pos (by simpa using hne)]
  · rfl

lemma Spot.Fresh.in_round {other : Nat} (hstarted : started = { spot with
      rounds := (loop, spot.position, 1) :: spot.rounds.filter fun entry => entry.1 != loop })
    (hne : other ≠ loop) (fresh : spot.Fresh other) : started.Fresh other := by
  subst hstarted
  intro position count hlookup
  rw [List.lookup_cons, beq_false_of_ne hne, lookup_filter_ne hne] at hlookup
  exact fresh position count hlookup

lemma Behind.rest_of_append (h : Behind loops spot word between) (hrest : spot.rest = word ++ rest) :
    between.rest = rest := by
  rw [h.rest_eq] at hrest
  exact List.append_cancel_left hrest

lemma Behind.of_started (hstarted : started = { spot with
      rounds := (loop, spot.position, 1) :: spot.rounds.filter fun entry => entry.1 != loop })
    (hloop : loop ∉ loops) (hword : word ≠ []) (h : Behind loops started word between) :
    Behind (loop :: loops) spot word between := by
  subst hstarted
  refine ⟨h.rest_eq, h.position_eq, fun other hother => ?_, fun other hother => ?_⟩
  · rcases List.mem_cons.mp hother with rfl | hother
    · intro position count hlookup
      rw [h.others _ hloop, List.lookup_cons, beq_self_eq_true] at hlookup
      obtain ⟨rfl, -⟩ := Prod.mk.inj (Option.some.inj hlookup)
      rw [h.position_eq]
      exact Nat.lt_add_of_pos_right (List.length_pos_iff.mpr hword)
    · exact h.fresh other hother
  · rw [List.mem_cons, not_or] at hother
    rw [h.others _ hother.2, List.lookup_cons, beq_false_of_ne hother.1, lookup_filter_ne hother.1]

/-- Whatever a way behind a word comes to, the pattern gets through there. -/
def Passes (first : Bool) (node : Node) (word : Bytes) : Prop :=
  ∀ ⦃spot rest next⦄, (∀ loop ∈ node.loops, spot.Fresh loop) → spot.rest = word ++ rest →
    (∀ between, Behind node.loops spot word between → (next between).isSome) →
    (run first node spot next).isSome

/-- A loop whose rounds take these words, none of them empty, goes through all of them. -/
lemma isSome_loopRounds {words : List Bytes} (hwords : ∀ word ∈ words, Passes first node word)
    (hne : ∀ word ∈ words, word ≠ []) (hloop : loop ∉ node.loops) {fuel : Nat}
    (hfuel : words.length ≤ fuel) (fresh : ∀ other ∈ loop :: node.loops, spot.Fresh other)
    (hrest : spot.rest = words.flatten ++ rest)
    (hnext : ∀ between, Behind (loop :: node.loops) spot words.flatten between → (next between).isSome) :
    (loopRounds loop greedy (run first node) fuel spot next).isSome := by
  induction words generalizing spot fuel with
  | nil =>
    have hstop := hnext spot (.refl fresh)
    cases fuel with
    | zero => exact hstop
    | succ fuel =>
      rw [loopRounds_succ]
      exact isSome_either (Or.inr hstop)
  | cons word words ih =>
    obtain ⟨fuel, rfl⟩ : ∃ fuel', fuel = fuel' + 1 := ⟨fuel - 1, by simp at hfuel; omega⟩
    rw [loopRounds_succ]
    refine isSome_either (Or.inl ?_)
    rw [(fresh loop List.mem_cons_self).startRound?, Option.bind_some]
    rw [List.flatten_cons, List.append_assoc] at hrest
    refine hwords word List.mem_cons_self (fun other hother => ?_) hrest fun between hbetween => ?_
    · have hother' : other ≠ loop := fun heq => hloop (heq ▸ hother)
      exact (fresh other (List.mem_cons_of_mem _ hother)).in_round rfl hother'
    · have hround := hbetween.of_started rfl hloop (hne word List.mem_cons_self)
      exact ih (fun other hother => hwords other (List.mem_cons_of_mem _ hother))
        (fun other hother => hne other (List.mem_cons_of_mem _ hother)) (by simpa using hfuel) hround.fresh
        (hround.rest_of_append hrest)
        fun last hlast => hnext last (hround.trans hlast fun _ => or_self_iff.symm)

lemma length_le_roundLimit {words : List Bytes} (hne : ∀ word ∈ words, word ≠ [])
    (hrest : spot.rest = words.flatten ++ rest) : words.length ≤ roundLimit spot := by
  have hlength : words.length ≤ words.flatten.length := by
    clear hrest
    induction words with
    | nil => exact Nat.le_refl 0
    | cons word words ih =>
      have hpos := List.length_pos_iff.mpr (hne word List.mem_cons_self)
      have hle := ih fun other hother => hne other (List.mem_cons_of_mem _ hother)
      rw [List.flatten_cons, List.length_append, List.length_cons]
      omega
  rw [roundLimit, hrest, List.length_append]
  omega

/-- **A regular pattern gets through each of its texts**, wherever its loops are fresh. -/
theorem passes_of_mem_language (regular : node.Regular) (hloops : node.loops.Nodup)
    (hword : word ∈ node.language) : Passes first node word := by
  induction node generalizing word with
  | empty =>
    intro spot rest next fresh hrest hnext
    cases hword
    exact hnext spot (.refl fresh)
  | one set =>
    intro spot rest next fresh hrest hnext
    obtain ⟨b, hset, rfl⟩ := hword
    simp only [run, hrest, List.singleton_append, hset, if_true]
    exact hnext _ ⟨hrest, rfl, by simp [Node.loops], fun _ _ => rfl⟩
  | seq a b iha ihb =>
    intro spot rest next fresh hrest hnext
    obtain ⟨hloopsa, hloopsb, hdisjoint⟩ := List.nodup_append.mp hloops
    obtain ⟨worda, hworda, wordb, hwordb, rfl⟩ := Language.mem_mul.mp hword
    rw [List.append_assoc] at hrest
    refine iha regular.1 hloopsa hworda (fun loop hloop => fresh loop (List.mem_append_left _ hloop)) hrest
      fun between hbetween => ?_
    refine ihb regular.2 hloopsb hwordb (fun loop hloop => ?_) (hbetween.rest_of_append hrest)
      fun last hlast => hnext last (hbetween.trans hlast fun _ => List.mem_append)
    -- The first pattern leaves the loops of the second one fresh: they have other numbers.
    have hnot : loop ∉ a.loops := fun hmem => hdisjoint loop hmem loop hloop rfl
    exact hbetween.fresh_of_notMem hnot (fresh loop (List.mem_append_right _ hloop))
  | alt a b iha ihb =>
    intro spot rest next fresh hrest hnext
    obtain ⟨hloopsa, hloopsb, -⟩ := List.nodup_append.mp hloops
    simp only [run, Option.orElse_eq_orElse, Option.orElse_eq_or, Option.isSome_or, Bool.or_eq_true]
    refine hword.imp (fun hword => ?_) fun hword => ?_
    · exact iha regular.1 hloopsa hword (fun loop hloop => fresh loop (List.mem_append_left _ hloop)) hrest
        fun between hbetween => hnext between (hbetween.mono (List.subset_append_left _ _) fresh)
    · exact ihb regular.2 hloopsb hword (fun loop hloop => fresh loop (List.mem_append_right _ hloop)) hrest
        fun between hbetween => hnext between (hbetween.mono (List.subset_append_right _ _) fresh)
  | group index body ih =>
    intro spot rest next fresh hrest hnext
    exact ih regular hloops hword fresh hrest fun between hbetween =>
      hnext _ ⟨hbetween.rest_eq, hbetween.position_eq, hbetween.fresh, hbetween.others⟩
  | star loop greedy body ih =>
    intro spot rest next fresh hrest hnext
    obtain ⟨hloop, hloops⟩ := List.nodup_cons.mp hloops
    -- The search refuses a round that takes nothing, so the text is divided into words that are not empty.
    obtain ⟨words, rfl, hwords⟩ := Language.mem_kstar_iff_exists_nonempty.mp hword
    have hne : ∀ word ∈ words, word ≠ [] := fun word hmem => (hwords word hmem).2
    exact isSome_loopRounds (fun word hmem => ih regular hloops (hwords word hmem).1) hne hloop
      (length_le_roundLimit hne hrest) fresh hrest hnext
  | plus loop greedy body ih =>
    intro spot rest next fresh hrest hnext
    obtain ⟨hloop, hloops⟩ := List.nodup_cons.mp hloops
    obtain ⟨front, hfront, back, hback, rfl⟩ := Language.mem_mul.mp hword
    obtain ⟨words, rfl, hwords⟩ := Language.mem_kstar_iff_exists_nonempty.mp hback
    have hne : ∀ word ∈ words, word ≠ [] := fun word hmem => (hwords word hmem).2
    rw [List.append_assoc] at hrest
    refine ih regular hloops hfront (fun other hother => fresh other (List.mem_cons_of_mem _ hother)) hrest
      fun between hbetween => ?_
    have hrest' := hbetween.rest_of_append hrest
    have hall := hbetween.mono (List.subset_cons_self loop _) fresh
    exact isSome_loopRounds (fun word hmem => ih regular hloops (hwords word hmem).1) hne hloop
      (length_le_roundLimit hne hrest') hall.fresh hrest'
      fun last hlast => hnext last (hall.trans hlast fun _ => or_self_iff.symm)
  | opt loop greedy body ih =>
    intro spot rest next fresh hrest hnext
    obtain ⟨hloop, hloops⟩ := List.nodup_cons.mp hloops
    simp only [run, Option.orElse_eq_orElse, Option.orElse_eq_or]
    refine isSome_either ?_
    by_cases hempty : word = []
    · subst hempty
      exact Or.inr (hnext spot (.refl fresh))
    · left
      have hbody : word ∈ body.language := hword.resolve_left hempty
      rw [(fresh loop List.mem_cons_self).startRound?, Option.bind_some]
      refine ih regular hloops hbody (fun other hother => ?_) hrest
        fun between hbetween => hnext between (hbetween.of_started rfl hloop hempty)
      have hother' : other ≠ loop := fun heq => hloop (heq ▸ hother)
      exact (fresh other (List.mem_cons_of_mem _ hother)).in_round rfl hother'
  | lineStart | lineEnd | boundary _ | look _ _ | reference _ => exact regular.elim

/-! ### Searching -/

lemma isSome_run_iff (regular : node.Regular) (hloops : node.loops.Nodup) (previous : Option UInt8) :
    (run first node ⟨text, 0, previous, [], []⟩ some).isSome ↔ ∃ word ∈ node.language, word <+: text := by
  constructor
  · intro h
    obtain ⟨reached, hreached⟩ := Option.isSome_iff_exists.mp h
    obtain ⟨word, hword, between, hrest, -⟩ := takes_of_run regular hreached
    exact ⟨word, hword, between.rest, hrest.symm⟩
  · rintro ⟨word, hword, rest, hrest⟩
    refine passes_of_mem_language regular hloops hword (fun loop _ position count hlookup => ?_) hrest.symm
      fun _ _ => rfl
    cases hlookup

/-- **A regular pattern is found** in a text exactly if one of its texts occurs in it in one piece. -/
theorem found_iff (regular : node.Regular) (hloops : node.loops.Nodup) (text : Bytes) :
    found node text = true ↔ ∃ word ∈ node.language, word <:+: text := by
  have hlater : ∀ previous text, laterAttempts node previous text = true ↔
      ∃ word ∈ node.language, word <:+: text := by
    intro previous text
    induction text generalizing previous with
    | nil =>
      rw [laterAttempts, Bool.or_false, isSome_run_iff regular hloops]
      simp only [List.prefix_nil, List.infix_nil]
    | cons b rest ih =>
      rw [laterAttempts, Bool.or_eq_true, isSome_run_iff regular hloops, ih]
      simp only [List.infix_cons_iff, and_or_left, exists_or]
  cases text with
  | nil =>
    rw [found, Bool.or_false, isSome_run_iff regular hloops]
    simp only [List.prefix_nil, List.infix_nil]
  | cons b rest =>
    rw [found, Bool.or_eq_true, isSome_run_iff regular hloops, hlater]
    simp only [List.infix_cons_iff, and_or_left, exists_or]

end Chronicle.Pattern
