import Chronicle.Proofs.Trace.Orderly

/-!
What a public view shows of a run, and what it keeps to itself.

A span stands in one of two lists, in full if it is public and else by its identifier and its hash, so a span
without a hash would be in neither. A finalized run has none of these. The lists are made of just that, one in
the order of numbers and the other in the order of identifiers: runs that differ in anything else have the
same view.
-/

namespace Chronicle.Trace

/-- A view that shows every one of the spans, in one of its two lists and there once. -/
structure PublicView.Divides (view : PublicView) (spans : List Span) : Prop where
  /-- the public spans in full -/
  public_eq : view.publicSpans = spans.filter fun span => span.visibility = .shown
  public_sorted : view.publicSpans.Pairwise fun a b => a.spanSeq < b.spanSeq
  /-- identifier and hash of each of the others, none of which is without a hash -/
  redacted_perm : (view.redactedSpans.map fun redacted => (redacted.spanId, some redacted.hash)).Perm
    ((spans.filter fun span => span.visibility ≠ .shown).map fun span => (span.id, span.hash))
  redacted_sorted : view.redactedSpans.Pairwise fun a b => a.spanId < b.spanId
  /-- no span is shown twice -/
  ids_nodup : (view.publicSpans.map (·.id) ++ view.redactedSpans.map (·.spanId)).Nodup

/-- A span that looks like another from outside: it is the same one, or both are not public and have
identifier and hash in common. -/
inductive Span.LooksLike : Span → Span → Prop
  | shown {span : Span} (h : span.visibility = .shown) : LooksLike span span
  | hidden {a b : Span} (ha : a.visibility ≠ .shown) (hb : b.visibility ≠ .shown) (id_eq : a.id = b.id)
      (hash_eq : a.hash = b.hash) : LooksLike a b

/-- A run that looks like another from outside. -/
structure Run.LooksLike (run run' : Run) : Prop where
  id_eq : run.id = run'.id
  agentId_eq : run.agentId = run'.agentId
  schemaVersion_eq : run.schemaVersion = run'.schemaVersion
  startedAt_eq : run.startedAt = run'.startedAt
  endedAt_eq : run.endedAt = run'.endedAt
  durationMs_eq : run.durationMs = run'.durationMs
  status_eq : run.status = run'.status
  rootHash_eq : run.rootHash = run'.rootHash
  events_eq : run.events.length = run'.events.length
  spans : List.Forall₂ Span.LooksLike run.spans run'.spans

variable {run run' : Run} {spans spans' : List Span}

/-! ### Every span is shown -/

lemma redacted?_of_hash {span : Span} {hash : Bytes} (h : span.visibility ≠ .shown)
    (hhash : span.hash = some hash) : span.redacted? = some ⟨span.id, hash⟩ := by
  rw [Span.redacted?, if_neg h, hhash, Option.map_some]

lemma map_redacted? (h : ∀ span ∈ spans, ∃ hash, span.hash = some hash) :
    ((spans.filterMap Span.redacted?).map fun redacted => (redacted.spanId, some redacted.hash)) =
      (spans.filter fun span => span.visibility ≠ .shown).map fun span => (span.id, span.hash) := by
  induction spans with
  | nil => rfl
  | cons span rest ih =>
    obtain ⟨⟨hash, hhash⟩, hrest⟩ := List.forall_mem_cons.mp h
    by_cases hshown : span.visibility = .shown
    · have hnone : span.redacted? = none := by rw [Span.redacted?, if_pos hshown]
      rw [List.filterMap_cons_none hnone, List.filter_cons_of_neg (by simpa using hshown), ih hrest]
    · rw [List.filterMap_cons_some (redacted?_of_hash hshown hhash),
        List.filter_cons_of_pos (by simpa using hshown), List.map_cons, List.map_cons, ih hrest, hhash]

lemma bytes_lt_of_le_of_ne {a b : Bytes} (h : a ≤ b) (hne : a ≠ b) : a < b :=
  Decidable.byContradiction fun hnot => hne (List.le_antisymm h (List.not_lt.mp hnot))

/-- **The view of a finalized run** shows every span in one list. -/
theorem Run.Orderly.divides (h : run.Orderly) (hfinal : run.rootHash.isSome) (merkleRoot : Bytes) :
    (run.publicView merkleRoot).Divides run.spans := by
  have hpublic : (run.publicView merkleRoot).publicSpans =
      run.spans.filter fun span => span.visibility = .shown :=
    sortBy_key_eq_self Span.spanSeq ((h.spans_sorted.filter _).imp Nat.le_of_lt)
  have hperm := (sortBy_perm RedactedSpan.precedes (run.spans.filterMap Span.redacted?)).map
    fun redacted => (redacted.spanId, some redacted.hash)
  rw [map_redacted? fun span hspan => h.exists_hash hfinal hspan] at hperm
  -- Both lists together have the identifiers of all spans.
  have hids : ((run.publicView merkleRoot).publicSpans.map (·.id) ++
      (run.publicView merkleRoot).redactedSpans.map (·.spanId)).Perm (run.spans.map (·.id)) := by
    have hredacted := hperm.map Prod.fst
    simp only [List.map_map] at hredacted
    have hall := (List.filter_append_perm (fun span => span.visibility = .shown) run.spans).map (·.id)
    rw [List.map_append] at hall
    rw [hpublic]
    refine ((hredacted.append_left _).trans ?_).trans hall
    simp only [decide_not]
    rfl
  have hnodup := hids.nodup_iff.mpr (h.ids_nodup hfinal)
  refine ⟨hpublic, ?_, hperm, ?_, hnodup⟩
  · rw [hpublic]
    exact h.spans_sorted.filter _
  · have hsorted := sortBy_pairwise RedactedSpan.spanId (run.spans.filterMap Span.redacted?)
    have hne := List.pairwise_map.mp (List.nodup_append.mp hnodup).2.1
    exact (hsorted.and hne).imp fun hboth => bytes_lt_of_le_of_ne hboth.1 hboth.2

/-! ### Nothing else is shown -/

lemma filter_shown_eq (h : List.Forall₂ Span.LooksLike spans spans') :
    (spans.filter fun span => span.visibility = .shown) =
      spans'.filter fun span => span.visibility = .shown := by
  induction h with
  | nil => rfl
  | cons hspan _ ih =>
    cases hspan with
    | shown hshown =>
      rw [List.filter_cons_of_pos (by simpa using hshown), List.filter_cons_of_pos (by simpa using hshown), ih]
    | hidden ha hb _ _ =>
      rw [List.filter_cons_of_neg (by simpa using ha), List.filter_cons_of_neg (by simpa using hb), ih]

lemma Span.LooksLike.redacted?_eq {a b : Span} (h : a.LooksLike b) : a.redacted? = b.redacted? := by
  cases h with
  | shown _ => rfl
  | hidden ha hb id_eq hash_eq =>
    rw [Span.redacted?, Span.redacted?, if_neg ha, if_neg hb, id_eq, hash_eq]

lemma Span.LooksLike.hash_eq {a b : Span} (h : a.LooksLike b) : a.hash = b.hash := by
  cases h with
  | shown _ => rfl
  | hidden _ _ _ hash_eq => exact hash_eq

lemma filterMap_redacted?_eq (h : List.Forall₂ Span.LooksLike spans spans') :
    spans.filterMap Span.redacted? = spans'.filterMap Span.redacted? := by
  induction h with
  | nil => rfl
  | cons hspan _ ih => rw [List.filterMap_cons, List.filterMap_cons, hspan.redacted?_eq, ih]

lemma map_hash_eq (h : List.Forall₂ Span.LooksLike spans spans') :
    (spans.map (·.hash)) = spans'.map (·.hash) := by
  induction h with
  | nil => rfl
  | cons hspan _ ih => rw [List.map_cons, List.map_cons, hspan.hash_eq, ih]

/-- **Runs that look alike from outside** have the same view. -/
theorem Run.LooksLike.publicView_eq (h : run.LooksLike run') (merkleRoot : Bytes) :
    run.publicView merkleRoot = run'.publicView merkleRoot := by
  simp only [Run.publicView, h.id_eq, h.agentId_eq, h.schemaVersion_eq, h.startedAt_eq, h.endedAt_eq,
    h.durationMs_eq, h.status_eq, h.rootHash_eq, h.events_eq, h.spans.length_eq, filter_shown_eq h.spans,
    filterMap_redacted?_eq h.spans]

lemma spanHashes_of_sorted (h : run.spans.Pairwise fun a b => a.spanSeq < b.spanSeq) :
    run.spanHashes = (run.spans.map (·.hash)).map (·.getD []) := by
  have hself : sortBy Span.earlier run.spans = run.spans :=
    sortBy_key_eq_self Span.spanSeq (h.imp Nat.le_of_lt)
  rw [Run.spanHashes, hself, List.map_map]
  rfl

/-- **A public view shows of a span that is not public its identifier and its hash, and nothing else.** In the
view of every run that has been finalized, by any calls with any identifiers, each span stands in one list,
once: public spans in full and in the order of their numbers, all others by identifier and hash in the order
of their identifiers. Runs that look alike from outside have equal views under every Merkle root, and the
views in their bundles are equal if spans are listed by their numbers, as finalized runs list them. -/
theorem view_shows_no_more :
    (∀ (id agentId : Bytes) (now : Int) (run : Run) (calls : List Call),
      Run.create id now agentId = .ok run → (run.after calls).rootHash.isSome →
        ((run.after calls).spans.Pairwise fun a b => a.spanSeq < b.spanSeq) ∧
        ∀ merkleRoot, ((run.after calls).publicView merkleRoot).Divides (run.after calls).spans) ∧
    ∀ run run' : Run, run.LooksLike run' →
      (∀ merkleRoot, run.publicView merkleRoot = run'.publicView merkleRoot) ∧
      ((run.spans.Pairwise fun a b => a.spanSeq < b.spanSeq) →
        (run'.spans.Pairwise fun a b => a.spanSeq < b.spanSeq) →
        run.bundle.publicView = run'.bundle.publicView) := by
  refine ⟨fun id agentId now run calls created finalized => ?_,
    fun run run' alike => ⟨alike.publicView_eq, fun hsorted hsorted' => ?_⟩⟩
  · have horderly := (Run.orderly_of_create created).after calls
    exact ⟨horderly.spans_sorted, horderly.divides finalized⟩
  · have hhashes : run.spanHashes = run'.spanHashes := by
      rw [spanHashes_of_sorted hsorted, spanHashes_of_sorted hsorted', map_hash_eq alike.spans]
    change run.publicView _ = run'.publicView _
    rw [hhashes, alike.publicView_eq]

/-- A secret span with a public and a private one below it, and an identifier that is drawn twice. -/
def mixedCalls : List Call :=
  [.addSpan [9] 10 { name := [97], visibility := .secret },
    .addSpan [5] 11 { name := [98], visibility := .shown, parentSpanId := some [9] },
    .addSpan [3] 12 { name := [99], parentSpanId := some [9] }, .addEvent [7] 13 [5] {},
    .addEvent [7] 14 [3] {}, .closeSpan 15 [3] .failed, .finalize [16, 17] 18]

/-- A run with one public span and one that is kept secret. -/
def secretRun : Run :=
  { id := [1], status := .completed, rootHash := some [114]
    spans :=
      [⟨[2], 0, [112], .completed, .shown, [48], some [49], some 5, none, [], [[3]], some [50], 0⟩,
       ⟨[3], 1, [115], .failed, .secret, [48], some [49], some 4, some [2], [[6]], [], some [51], 1⟩] }

/-- Of the span that is not public everything is different but identifier and hash. -/
def otherRun : Run :=
  { secretRun with
    spans :=
      [⟨[2], 0, [112], .completed, .shown, [48], some [49], some 5, none, [], [[3]], some [50], 0⟩,
       ⟨[3], 1, [], .completed, .hidden, [52], some [53], some 9, none, [], [], some [51], 7⟩] }

theorem view_shows_no_more_secretSpan :
    (∃ run, Run.create [0] 9 [97] = .ok run ∧ (run.after mixedCalls).rootHash.isSome ∧
      ((run.after mixedCalls).publicView []).Divides (run.after mixedCalls).spans) ∧
    secretRun.LooksLike otherRun ∧ secretRun.publicView [109] = otherRun.publicView [109] ∧
    secretRun.bundle.publicView = otherRun.bundle.publicView := by
  obtain ⟨hdivides, halike⟩ := view_shows_no_more
  have created : Run.create [0] 9 [97] = .ok _ := rfl
  have alike : secretRun.LooksLike otherRun :=
    { id_eq := rfl, agentId_eq := rfl, schemaVersion_eq := rfl, startedAt_eq := rfl, endedAt_eq := rfl
      durationMs_eq := rfl, status_eq := rfl, rootHash_eq := rfl, events_eq := rfl
      spans := .cons (.shown rfl) (.cons (.hidden (by decide) (by decide) rfl rfl) .nil) }
  obtain ⟨hview, hbundle⟩ := halike secretRun otherRun alike
  exact ⟨⟨_, created, rfl, (hdivides _ _ _ _ mixedCalls created rfl).2 []⟩, alike, hview [109],
    hbundle (by decide) (by decide)⟩

end Chronicle.Trace
