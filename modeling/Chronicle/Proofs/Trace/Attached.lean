import Chronicle.Proofs.Trace.WellFormed
import Mathlib.Data.List.Sort

/-!
The events that are attached to a span.

A span lists identifiers. To hash it, the events are looked up by these and sorted by their numbers. In
a well-formed run in which no two events have one identifier, what comes out are the events of the run
that the span lists, in the order in which they were added: each look-up finds the event that was meant,
and nothing is left to sort.
-/

namespace Chronicle.Trace.Run

variable {run : Run} {span : Span}

/-- The events that a span lists, in the order of the run. -/
def eventsOf (run : Run) (span : Span) : List Event :=
  run.events.filter fun event => event.id ∈ span.eventIds

lemma WellFormed.events_sorted (h : run.WellFormed) :
    run.events.Pairwise fun a b => a.seq < b.seq := by
  refine List.pairwise_iff_getElem.mpr fun i j hi hj hlt => ?_
  rw [h.event_seq i hi, h.event_seq j hj]
  exact hlt

lemma WellFormed.eventsOf_sorted (h : run.WellFormed) (span : Span) :
    (run.eventsOf span).Pairwise fun a b => a.seq < b.seq :=
  h.events_sorted.filter _

lemma lastEvent?_of_mem (hids : (run.events.map (·.id)).Nodup) {event : Event}
    (h : event ∈ run.events) : run.lastEvent? event.id = some event := by
  refine find?_key_of_mem ?_ (List.mem_reverse.mpr h)
  rw [List.map_reverse]
  exact List.nodup_reverse.mpr hids

lemma WellFormed.eventsOf_eq (h : run.WellFormed) (hids : (run.events.map (·.id)).Nodup)
    {listed : List Event} (hlisted : ∀ event ∈ listed, event ∈ run.events)
    (hsorted : listed.Pairwise fun a b => a.seq < b.seq)
    (heq : span.eventIds = listed.map (·.id)) : run.eventsOf span = listed := by
  have hmem : ∀ event, event ∈ run.eventsOf span ↔ event ∈ listed := by
    intro event
    rw [eventsOf, List.mem_filter, heq, decide_eq_true_eq, List.mem_map]
    constructor
    · rintro ⟨hevent, other, hother, hid⟩
      rwa [← List.inj_on_of_nodup_map hids (hlisted other hother) hevent hid]
    · exact fun hevent => ⟨hlisted event hevent, event, hevent, rfl⟩
  have hnodup : ∀ {list : List Event}, list.Pairwise (fun a b => a.seq < b.seq) → list.Nodup :=
    fun hlist => hlist.imp fun hlt heq => absurd (heq ▸ hlt) (Nat.lt_irrefl _)
  have hperm : (run.eventsOf span).Perm listed :=
    (List.perm_ext_iff_of_nodup (hnodup (h.eventsOf_sorted span)) (hnodup hsorted)).mpr hmem
  exact hperm.eq_of_pairwise (fun _ _ _ _ hlt hgt => absurd hlt (Nat.lt_asymm hgt))
    (h.eventsOf_sorted span) hsorted

lemma WellFormed.map_id_eventsOf (h : run.WellFormed) (hids : (run.events.map (·.id)).Nodup)
    (hspan : span ∈ run.spans) : (run.eventsOf span).map (·.id) = span.eventIds := by
  obtain ⟨listed, hlisted, hsorted, heq⟩ := h.events_listed span hspan
  rw [h.eventsOf_eq hids hlisted hsorted heq, heq]

/-- **Looking up and sorting gives the events of the span**, none missing and none of another one. -/
theorem WellFormed.eventHashes_eq (h : run.WellFormed) (hids : (run.events.map (·.id)).Nodup)
    (hspan : span ∈ run.spans) :
    run.eventHashes span = (run.eventsOf span).map (·.hash) := by
  obtain ⟨listed, hlisted, hsorted, heq⟩ := h.events_listed span hspan
  have hfound : span.eventIds.filterMap run.lastEvent? = listed := by
    rw [heq, List.filterMap_map]
    calc listed.filterMap (run.lastEvent? ∘ (·.id))
        = listed.filterMap some :=
          List.filterMap_congr fun event hevent => lastEvent?_of_mem hids (hlisted event hevent)
      _ = listed := List.filterMap_some
  have hstays : sortBy (fun a b : Event => decide (a.seq < b.seq)) listed = listed :=
    sortBy_key_eq_self Event.seq (hsorted.imp Nat.le_of_lt)
  rw [eventHashes, hfound, hstays, h.eventsOf_eq hids hlisted hsorted heq]

lemma WellFormed.eventsOf_of_prefix {run' : Run} (h : run.WellFormed)
    (hids : (run'.events.map (·.id)).Nodup) (hevents : run.events <+: run'.events)
    (hspan : span ∈ run.spans) : run'.eventsOf span = run.eventsOf span := by
  obtain ⟨added, hadded⟩ := hevents
  have hnone : (added.filter fun event => event.id ∈ span.eventIds) = [] := by
    refine List.filter_eq_nil_iff.mpr fun event hevent hlisted => ?_
    have hold : event.id ∈ run.events.map (·.id) :=
      h.mem_events (List.mem_flatMap.mpr ⟨span, hspan, of_decide_eq_true hlisted⟩)
    rw [← hadded, List.map_append, List.nodup_append] at hids
    exact hids.2.2 _ hold _ (List.mem_map_of_mem hevent) rfl
  rw [eventsOf, ← hadded, List.filter_append, hnone, List.append_nil, eventsOf]

end Chronicle.Trace.Run
