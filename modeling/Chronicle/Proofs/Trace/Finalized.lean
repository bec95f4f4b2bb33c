import Chronicle.Proofs.Trace.Calls

/-!
What finalizing a run gives.

Finalizing closes spans one after the other, each looked up by its identifier, and would be given up if
one could not be closed. In a well-formed run this never happens, whatever is open and whatever is over.
Then every span has a hash, and the spans are listed by their numbers already: neither sorting nor the
empty text in place of a missing hash has any effect, and both roots are taken of the same hashes.
-/

namespace Chronicle.Trace

/-- A span that was over is left alone, and one that was running is completed, with a hash. -/
structure Span.EndsAs (span span' : Span) : Prop where
  kept : span.status ≠ .running → span' = span
  completed : span.status = .running → ∃ ended duration hash, span' =
    { span with
      status := .completed
      endedAt := some ended
      durationMs := some duration
      hash := some hash }

/-- What a run, with these hashes of its spans in the end, is finalized into. -/
structure Run.Finalizes (run final : Run) (bundle : Bundle) (hashes : List Bytes) : Prop where
  spans : List.Forall₂ Span.EndsAs run.spans final.spans
  /-- only the spans, the end and the root hash are new -/
  frame : ∃ ended duration, final =
    { run with
      spans := final.spans
      status := .completed
      endedAt := some ended
      durationMs := some duration
      rootHash := some bundle.rootHash }
  /-- the spans are listed by their numbers, and all have a hash -/
  sorted : final.spans.Pairwise fun a b => a.spanSeq < b.spanSeq
  hashes_eq : final.spans.map (·.hash) = hashes.map some
  private_run : bundle.privateRun = final
  merkle_root : bundle.merkleRoot = Trace.merkleRoot hashes
  root_hash : bundle.rootHash = Trace.rootHash final.rollingHash hashes
  view_merkle_root : bundle.publicView.merkleRoot = bundle.merkleRoot
  view_root_hash : bundle.publicView.rootHash = bundle.rootHash
  view_events : bundle.publicView.totalEvents = final.events.length
  view_spans : bundle.publicView.totalSpans = final.spans.length

namespace Run

variable {run : Run}

lemma Completes.endsAs {span span' : Span} (h : Completes run span span') : span.EndsAs span' := by
  rcases h with ⟨hrunning, now, rfl⟩ | ⟨hover, rfl⟩
  · exact ⟨fun hover => absurd hrunning hover, fun _ => ⟨_, _, _, rfl⟩⟩
  · exact ⟨fun _ => rfl, fun hrunning => absurd hrunning hover⟩

lemma WellFormed.spans_sorted (h : run.WellFormed) :
    run.spans.Pairwise fun a b => a.spanSeq < b.spanSeq := by
  refine List.pairwise_iff_getElem.mpr fun i j hi hj hlt => ?_
  rw [h.span_seq i hi, h.span_seq j hj]
  exact hlt

lemma WellFormed.sortBy_spans (h : run.WellFormed) : sortBy Span.earlier run.spans = run.spans :=
  sortBy_key_eq_self Span.spanSeq (h.spans_sorted.imp Nat.le_of_lt)

lemma WellFormed.hashes_of_over (h : run.WellFormed)
    (hover : ∀ span ∈ run.spans, span.status ≠ .running) :
    run.spans.map (·.hash) = run.spanHashes.map some := by
  rw [spanHashes, h.sortBy_spans, List.map_map]
  refine List.map_congr_left fun span hspan => ?_
  obtain ⟨hash, hhash⟩ :=
    Option.isSome_iff_exists.mp ((h.spans_wellFormed span hspan).hash_iff.mpr (hover span hspan))
  simp [hhash]

theorem WellFormed.finalizes (h : run.WellFormed) (hopen : run.rootHash = none)
    (readings : List Int) (now : Int) :
    ∃ bundle final hashes, run.finalize readings now = (.ok bundle, final) ∧
      run.Finalizes final bundle hashes := by
  rcases finalize_cases h.span_ids_nodup readings now with
    ⟨hfinal, -⟩ | ⟨-, spans', hall, hfinal⟩
  · rw [hopen] at hfinal
    cases hfinal
  -- What is left is a well-formed run as well, and nothing in it is running.
  have hformed := h.finalize readings now
  rw [hfinal] at hformed
  have hover : ∀ span ∈ spans', span.status ≠ .running := completes_over hall
  refine ⟨_, _, (({ run with spans := spans' } : Run).ended now).spanHashes, hfinal, ?_⟩
  exact {
    spans := hall.imp fun _ _ hspan => hspan.endsAs
    frame := ⟨_, _, rfl⟩
    sorted := hformed.spans_sorted
    hashes_eq := hformed.hashes_of_over hover
    private_run := rfl
    merkle_root := rfl
    root_hash := rfl
    view_merkle_root := rfl
    view_root_hash := rfl
    view_events := rfl
    view_spans := rfl }

end Run

/-- **Finalizing succeeds.** A run after any calls, refused ones among them, that has not been finalized
is finalized: what was running is completed, what was over is left alone, no event or span is added,
removed or moved, and the roots in the bundle and in its view are those of all hashes of spans. -/
theorem finalize_succeeds {id agentId : Bytes} {now : Int} {run : Run} {calls : List Call}
    (created : Run.create id now agentId = .ok run)
    (distinct : (calls.flatMap Call.drawn).Nodup)
    (not_finalized : (run.after calls).rootHash = none) (readings : List Int) (last : Int) :
    ∃ bundle final hashes, (run.after calls).finalize readings last = (.ok bundle, final) ∧
      (run.after calls).Finalizes final bundle hashes := by
  obtain ⟨hdistinct, hnew⟩ := Run.fresh_of_create created distinct
  exact ((Run.create_wellFormed created).after hdistinct hnew).finalizes not_finalized readings last

/-- With the span below closed and the span above still running. -/
theorem finalize_succeeds_nestedCalls :
    ∃ run, Run.create [0] 9 [97] = .ok run ∧ ((nestedCalls.take 7).flatMap Call.drawn).Nodup ∧
      (run.after (nestedCalls.take 7)).rootHash = none ∧
      ∃ bundle final hashes,
        (run.after (nestedCalls.take 7)).finalize [17, 18] 19 = (.ok bundle, final) ∧
        (run.after (nestedCalls.take 7)).Finalizes final bundle hashes := by
  have created : Run.create [0] 9 [97] = .ok _ := rfl
  have distinct : ((nestedCalls.take 7).flatMap Call.drawn).Nodup := by decide
  exact ⟨_, created, distinct, rfl, finalize_succeeds created distinct rfl [17, 18] 19⟩

end Chronicle.Trace
