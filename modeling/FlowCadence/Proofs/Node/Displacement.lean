import FlowCadence.Node.Busy
import FlowCadence.Proofs.Node.Mirror
/-! # Flows that give way to topologies

A topology that is put under the uri of a flow takes the place of the flow in the catalog.
The node hears of it as of a changed spec.  Topologies are nothing to schedule, so it does
nothing at all, and what it had scheduled under the uri stays: the flow is registered, and
its trigger goes on firing.

Nothing else gets out of step.  Under a uri where the catalog holds no topology, registry
and triggers hold what belongs there, whatever was there before (`Follows`).  A flow that
is put, or that a notice makes the node look up, settles its slot, and a deletion clears it.
So what is left under a topology is what belonged to the flow that it has replaced.

## Key results

* `Follows.obey`, `follows_obeyAll`: where the catalog is followed, command after command
* `vacated_iff`: when nothing is left of a flow that has given way -/

namespace FlowCadence.Node

variable {s : Setup} {n : Node}

/-- Wherever the catalog holds no topology, registry and triggers hold what belongs there. -/
structure Follows (s : Setup) (n : Node) : Prop where
  here : n.aside s = false
  keyed : ∀ uri spec, n.catalog.get? uri = some spec → spec.uri = uri
  slots : ∀ uri, (∀ t, n.catalog.get? uri ≠ some (.topology t)) →
    n.slot uri = settled s (n.catalog.get? uri)

/-! ### Puts -/

/-- A put keeps the catalog followed. -/
theorem Follows.put (hs : s.replies.EngineServes) (h : Follows s n) (spec : Spec) :
    Follows s (n.obey s (.put spec)) := by
  obtain ⟨hactive, hcatalog⟩ := stores_put s spec n
  refine ⟨(aside_congr hactive).trans h.here, ?_, fun uri hno => ?_⟩
  · rw [hcatalog]
    exact keyed_stored h.keyed spec
  · rw [hcatalog, catalog_stored] at hno ⊢
    cases spec with
    | topology t =>
      -- Nothing is claimed any more about the uri of the topology.
      rw [slot_put_topology]
      split at hno
      · exact absurd rfl (hno t)
      · next hne =>
        rw [if_neg hne]
        exact h.slots uri hno
    | flow f =>
      have hempty (hnone : n.catalog.get? f.uri.text = none) :
          n.slot f.uri.text = (none, none) := by
        rw [h.slots f.uri.text (by simp [hnone]), hnone]
        rfl
      rw [slot_put_flow hs h.here hempty]
      split
      · rfl
      · next hne =>
        rw [if_neg hne] at hno
        exact h.slots uri hno

/-! ### Deletions and notices -/

/-- So does a deletion, which clears the slot of the uri as well. -/
theorem Follows.delete (hc : s.catalogued = true) (hs : s.replies.EngineServes)
    (hcs : s.replies.CatalogServes) (h : Follows s n) (uri : String) :
    Follows s (n.obey s (.delete uri)) := by
  obtain ⟨hactive, hcatalog, hslot⟩ := stores_delete hc hs hcs h.here h.keyed uri
  refine ⟨(aside_congr hactive).trans h.here, fun a spec hf => ?_, fun a hno => ?_⟩
  · rw [hcatalog] at hf
    split at hf
    · cases hf
    · exact h.keyed a spec hf
  · rw [hcatalog] at hno ⊢
    rw [hslot]
    by_cases heq : uri = a
    · subst heq
      -- A topology goes like a flow, and where nothing was held the slot was empty.
      cases hold : n.catalog.get? uri with
      | some spec => simp [settled, entry]
      | none =>
        have hempty := h.slots uri (by simp [hold])
        rw [hold] at hempty
        simpa using hempty
    · rw [if_neg heq] at hno
      simpa [heq] using h.slots a hno

/-- What a notice makes the node look up is what the slot follows already. -/
theorem Follows.notice (hc : s.catalogued = true) (hs : s.replies.EngineServes)
    (hcs : s.replies.CatalogServes) (h : Follows s n) (m : Notice) :
    Follows s (n.obey s (.notice m)) := by
  cases hactive : n.active with
  | false =>
    rw [obey_notice_of_standby hactive]
    exact ⟨h.here, h.keyed, h.slots⟩
  | true =>
    have hfinds := Finds.of_serves hc hcs h.keyed
    have hcatalog := catalog_obey_notice hactive hfinds m
    -- The catalog stays as it is, and the uri of the notice is reconciled with it once more.
    refine ⟨aside_of_active (active_obey_notice hactive hfinds m), ?_, fun uri hno => ?_⟩
    · rw [hcatalog]
      exact h.keyed
    · rw [hcatalog] at hno ⊢
      rw [slot_obey_notice hactive hs hfinds, h.slots uri hno, reconciled_settled, ite_self]

/-! ### All commands -/

/-- So do all commands that bring news. -/
theorem Follows.obey (hc : s.catalogued = true) (hs : s.replies.EngineServes)
    (hcs : s.replies.CatalogServes) (h : Follows s n) {c : Command} (hnews : c.isNews = true) :
    Follows s (n.obey s c) := by
  cases c with
  | put spec => exact h.put hs spec
  | delete uri => exact h.delete hc hs hcs uri
  | notice m => exact h.notice hc hs hcs m
  | lead _ | change _ | schedule _ _ => cases hnews

/-- And so does every sequence of them. -/
theorem follows_obeyAll (hc : s.catalogued = true) (hs : s.replies.EngineServes)
    (hcs : s.replies.CatalogServes) (h : Follows s n) {cs : List Command}
    (hnews : ∀ c ∈ cs, c.isNews = true) : Follows s (n.obeyAll s cs) := by
  induction cs generalizing n with
  | nil => exact h
  | cons c cs ih =>
    exact ih (h.obey hc hs hcs (hnews c List.mem_cons_self))
      fun c hm => hnews c (List.mem_cons_of_mem _ hm)

/-- At the start of its work a node follows its catalog everywhere. -/
theorem Synced.follows (h : Synced s n) : Follows s n where
  here := h.here
  keyed := h.keyed
  slots uri _ := h.slots uri

/-- What belongs under the uri of a flow is nothing exactly if the flow cannot be scheduled. -/
theorem settled_eq_none_iff (f : Flow) :
    settled s (some (.flow f)) = (none, none) ↔ ∀ sch, ¬ s.Schedules f sch := by
  constructor
  · intro h sch hsch
    rw [settled_of_schedules hsch] at h
    cases h
  · intro hno
    have hentry : entry s (some (.flow f)) = none := by
      rw [Option.eq_none_iff_forall_ne_some]
      rintro ⟨g, job⟩ hsome
      obtain ⟨hfound, sch, hsch, -⟩ := entry_eq_some_iff.1 hsome
      cases hfound
      exact hno sch hsch
    rw [settled, hentry]
    rfl

/-- Let a topology be put under the uri of a flow that the catalog holds.  Then registry and
    triggers hold nothing under the uri exactly if they held nothing there before, whatever
    state the node was in.  On a node that has done its work itself from the start, and has
    heard of its catalog by puts, deletions and notices, with an engine that serves it, that is
    so exactly if the flow has no schedule that can be used. -/
theorem vacated_iff (hc : s.catalogued = true) (hs : s.replies.EngineServes)
    (hcs : s.replies.CatalogServes) {t : Topology} {f : Flow}
    (hheld : n.catalog.get? t.uri.text = some (.flow f)) :
    ((n.obey s (.put (.topology t))).EmptyAt t.uri.text ↔ n.EmptyAt t.uri.text) ∧
    ∀ (active : Bool) (cs : List Command), standsAside active s.clustered = false →
      (∀ c ∈ cs, c.isNews = true) → n = (Node.initial.lead s active).obeyAll s cs →
      ((n.obey s (.put (.topology t))).EmptyAt t.uri.text ↔ ∀ sch, ¬ s.Schedules f sch) := by
  have hslot := slot_put_topology s t n t.uri.text
  constructor
  -- The topology leaves the slot as it is.
  · rw [emptyAt_iff, emptyAt_iff, hslot]
  · intro active cs hlocal hnews hn
    have hfollows : Follows s n := by
      rw [hn]
      exact follows_obeyAll hc hs hcs (synced_start hcs hlocal).follows hnews
    -- The catalog held a flow there, so the slot was settled by it.
    have hsettled : n.slot t.uri.text = settled s (some (.flow f)) := by
      rw [hfollows.slots t.uri.text (by simp [hheld]), hheld]
    rw [emptyAt_iff, hslot, hsettled, settled_eq_none_iff]

private def displacedUri : Label := ⟨"flow://n", Eq.refl false⟩

private def displacedFlow : Flow := timed displacedUri ⟨"1", Eq.refl false⟩ "0 0 * * *"

/-- The next version has no schedule. -/
private def unscheduledVersion : Flow := ⟨displacedUri, ⟨"2", Eq.refl false⟩, none, ∅⟩

private def displacingTopology : Topology := ⟨displacedUri, ⟨"3", Eq.refl false⟩, none⟩

/-- The flow has lost its schedule before it gives way, and nothing is left of it. -/
theorem vacated_unscheduled :
    let s : Setup := .plain .reliable
    let n := (Node.initial.lead s true).obeyAll s
      [.put (.flow displacedFlow), .put (.flow unscheduledVersion)]
    n.catalog.get? "flow://n" = some (.flow unscheduledVersion) ∧
      (n.obey s (.put (.topology displacingTopology))).EmptyAt "flow://n" := by
  intro s n
  have hheld : n.catalog.get? "flow://n" = some (.flow unscheduledVersion) := by decide +kernel
  obtain ⟨-, hvacated⟩ := vacated_iff (s := s) rfl Replies.reliable_engineServes
    Replies.reliable_catalogServes (t := displacingTopology) hheld
  refine ⟨hheld, (hvacated true _ rfl (by decide) rfl).2 ?_⟩
  have hno : ¬ ∃ sch, s.Schedules unscheduledVersion sch := by decide +kernel
  exact not_exists.1 hno

/-- A flow that could be scheduled is scheduled when a topology has taken its place. -/
theorem not_vacated :
    ¬ ∀ (s : Setup) (n : Node) (t : Topology) (f : Flow), s.catalogued = true →
      s.replies.EngineServes → s.replies.CatalogServes → Reachable s n → n.aside s = false →
      n.catalog.get? t.uri.text = some (.flow f) →
      (n.obey s (.put (.topology t))).EmptyAt t.uri.text := by
  intro h
  let turns : List Turn := [⟨.reliable, .accept (.lead true)⟩,
    ⟨.reliable, .accept (.put (.flow displacedFlow))⟩, ⟨.reliable, .advance 0⟩,
    ⟨.reliable, .advance 0⟩,
    ⟨.reliable, .advance 0⟩]
  have hempty := h (.plain .reliable) (Busy.start.run (.plain .reliable) turns).node
    displacingTopology
    displacedFlow rfl Replies.reliable_engineServes Replies.reliable_catalogServes ⟨turns, rfl⟩
    (by decide +kernel) (by decide +kernel)
  exact absurd hempty.1 (by decide +kernel)

end FlowCadence.Node
