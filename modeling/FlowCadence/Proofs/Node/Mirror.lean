import FlowCadence.Proofs.Node.Redelivery
/-! # The schedule mirrors the catalog

A node that acts on its own or leads, with a catalog of its own and an engine that
serves every call, keeps three stores: the catalog, the registry and the triggers in
the engine.  After every command the registry holds just the flows of the catalog
whose schedule can be used, and the engine just the triggers of these.

The proof goes uri by uri.  What the catalog holds under a uri says what belongs
under it in the other two (`entry`), each command touches one uri at most, and there
it leaves what belongs (`settled`).

## Key results

* `synced_put`, `synced_delete`, `synced_notice`: each command keeps the stores in step
* `mirrors_catalog`: they are in step after every sequence of commands -/

namespace FlowCadence.Node

/-- Registry and triggers hold what follows from the catalog, and nothing else. -/
structure Mirrors (s : Setup) (n : Node) : Prop where
  /-- The catalog keeps every spec under its own uri. -/
  keyed : ∀ uri spec, n.catalog.get? uri = some spec → spec.uri = uri
  /-- The registry holds the flows of the catalog whose schedule can be used. -/
  registry : ∀ uri f, n.registry[uri]? = some f ↔
    n.catalog.get? uri = some (.flow f) ∧ ∃ sch, s.Schedules f sch
  /-- The engine holds the triggers of these flows. -/
  jobs : ∀ uri job, n.jobs[uri]? = some job ↔
    ∃ f sch, n.catalog.get? uri = some (.flow f) ∧ s.Schedules f sch ∧
      job.name = uri ∧ job.schedule = sch ∧ job.payload = ⟨configOf s f, false, some f⟩ ∧
      job.exclusive = true

variable {s : Setup} {n : Node}

/-! ### One uri at a time -/

/-- Registry and triggers hold what belongs there under a uri. -/
def MirrorsAt (s : Setup) (n : Node) (uri : String) : Prop :=
  n.registry[uri]? = (entry s (n.catalog.get? uri)).map (·.1) ∧
    n.jobs[uri]? = (entry s (n.catalog.get? uri)).map (·.2)

/-- That is so just if the slot of the uri is settled. -/
theorem mirrorsAt_iff {uri : String} :
    MirrorsAt s n uri ↔ n.slot uri = settled s (n.catalog.get? uri) := by
  rw [slot, settled, Prod.mk.injEq]
  rfl

/-! ### One command at a time -/

/-- What every command keeps: the node does its work itself, and registry and
    triggers hold what belongs there under every uri. -/
structure Synced (s : Setup) (n : Node) : Prop where
  here : n.aside s = false
  keyed : ∀ uri spec, n.catalog.get? uri = some spec → spec.uri = uri
  mirrors : ∀ uri, MirrorsAt s n uri

/-- Every slot is settled then. -/
theorem Synced.slots (h : Synced s n) (uri : String) :
    n.slot uri = settled s (n.catalog.get? uri) :=
  mirrorsAt_iff.1 (h.mirrors uri)

/-- A put that replaces a flow by something that is no flow. -/
def replacesFlow (n : Node) : Command → Bool
  | .put (.topology t) => ((n.catalog.get? t.uri.text).bind Spec.flow?).isSome
  | _ => false

/-- Where a topology takes the place of no flow, nothing was to be there. -/
theorem settled_of_not_replacesFlow {t : Topology}
    (h : n.replacesFlow (.put (.topology t)) = false) :
    settled s (n.catalog.get? t.uri.text) = (none, none) := by
  rcases hold : n.catalog.get? t.uri.text with _ | f | _
  · rfl
  · simp [replacesFlow, hold, Spec.flow?] at h
  · rfl

/-- A put keeps the stores in step, if it replaces no flow by something else. -/
theorem synced_put (hs : s.replies.EngineServes) (h : Synced s n) {spec : Spec}
    (hkeep : n.replacesFlow (.put spec) = false) : Synced s (n.obey s (.put spec)) := by
  obtain ⟨hactive, hcatalog⟩ := stores_put s spec n
  refine ⟨(aside_congr hactive).trans h.here, ?_, fun uri => ?_⟩
  · rw [hcatalog]
    exact keyed_stored h.keyed spec
  · rw [mirrorsAt_iff, hcatalog, catalog_stored]
    cases spec with
    | flow f =>
      -- Where the catalog holds nothing, nothing is scheduled that the flow could find.
      have hempty (hnone : n.catalog.get? f.uri.text = none) :
          n.slot f.uri.text = (none, none) := by
        rw [h.slots, hnone]
        rfl
      rw [slot_put_flow hs h.here hempty]
      split
      · rfl
      · exact h.slots uri
    | topology t =>
      -- The slots stay as they are, and that of the topology is empty.
      rw [slot_put_topology, h.slots]
      split
      · next heq =>
        subst heq
        exact settled_of_not_replacesFlow hkeep
      · rfl

/-- A deletion keeps the stores in step, and one of a uri that is not there does nothing. -/
theorem synced_delete (hc : s.catalogued = true) (hs : s.replies.EngineServes)
    (hcs : s.replies.CatalogServes) (h : Synced s n) (uri : String) :
    Synced s (n.obey s (.delete uri)) := by
  obtain ⟨hactive, hcatalog, hslot⟩ := stores_delete hc hs hcs h.here h.keyed uri
  refine ⟨(aside_congr hactive).trans h.here, fun a spec hf => ?_, fun a => ?_⟩
  · rw [hcatalog] at hf
    split at hf
    · cases hf
    · exact h.keyed a spec hf
  · rw [mirrorsAt_iff, hcatalog, hslot, h.slots]
    by_cases heq : uri = a
    · subst heq
      -- The slot is cleared, or the catalog held nothing and there was nothing to clear.
      cases n.catalog.get? uri <;> simp [settled, entry]
    · simp [heq]

/-- A notice brings nothing new about a flow that the catalog knows, and nothing was
    left of one that it does not know. -/
theorem synced_notice (hc : s.catalogued = true) (hs : s.replies.EngineServes)
    (hcs : s.replies.CatalogServes) (h : Synced s n) (m : Notice) :
    Synced s (n.obey s (.notice m)) := by
  cases hactive : n.active with
  -- A standby lets notices pass.
  | false =>
    rw [obey_notice_of_standby hactive]
    exact ⟨h.here, h.keyed, h.mirrors⟩
  | true =>
    have hfinds := Finds.of_serves hc hcs h.keyed
    have hcatalog := catalog_obey_notice hactive hfinds m
    -- The uri of the notice is reconciled with the catalog once more, which changes nothing.
    refine ⟨aside_of_active (active_obey_notice hactive hfinds m), ?_, fun uri => ?_⟩
    · rw [hcatalog]
      exact h.keyed
    · rw [mirrorsAt_iff, hcatalog, slot_obey_notice hactive hs hfinds, h.slots,
        reconciled_settled, ite_self]

/-! ### All commands -/

/-- The commands that tell a node of its catalog: puts, deletions and notices. -/
def Command.isNews : Command → Bool
  | .put _ | .delete _ | .notice _ => true
  | .lead _ | .change _ | .schedule .. => false

/-- No put among the commands replaces a flow by something that is no flow. -/
def KeepsFlows (s : Setup) : Node → List Command → Prop
  | _, [] => True
  | n, c :: cs => n.replacesFlow c = false ∧ KeepsFlows s (n.obey s c) cs

instance KeepsFlows.decidable (s : Setup) : (n : Node) → (cs : List Command) →
    Decidable (KeepsFlows s n cs)
  | _, [] => inferInstanceAs (Decidable True)
  | n, c :: cs =>
    have := KeepsFlows.decidable s (n.obey s c) cs
    inferInstanceAs (Decidable (n.replacesFlow c = false ∧ KeepsFlows s (n.obey s c) cs))

/-- After every sequence of such commands the stores are in step, by induction on the commands. -/
theorem synced_obeyAll (hc : s.catalogued = true) (hs : s.replies.EngineServes)
    (hcs : s.replies.CatalogServes) {cs : List Command} (hnews : ∀ c ∈ cs, c.isNews = true)
    (h : Synced s n) (hkeep : KeepsFlows s n cs) : Synced s (n.obeyAll s cs) := by
  induction cs generalizing n with
  | nil => exact h
  | cons c cs ih =>
    obtain ⟨hreplaces, hrest⟩ := hkeep
    -- The others start from where the first one has led.
    refine ih (fun c hm => hnews c (List.mem_cons_of_mem _ hm)) ?_ hrest
    -- The first command keeps the stores in step.
    cases c with
    | put spec => exact synced_put hs h hreplaces
    | delete uri => exact synced_delete hc hs hcs h uri
    | notice m => exact synced_notice hc hs hcs h m
    -- Other commands bring no news.
    | lead _ | change _ | schedule _ _ => cases hnews _ List.mem_cons_self

/-- A node that takes up its work with an empty catalog has nothing scheduled. -/
theorem synced_start (hcs : s.replies.CatalogServes) {active : Bool}
    (hlocal : standsAside active s.clustered = false) :
    Synced s (Node.initial.lead s active) := by
  have hstores : (Node.initial.lead s active).registry = ∅ ∧
      (Node.initial.lead s active).jobs = ∅ ∧ (Node.initial.lead s active).catalog = .empty := by
    cases active with
    | false => exact ⟨rfl, rfl, rfl⟩
    | true =>
      -- The catalog lists nothing, so nothing is added.
      cases hcat : s.catalogued <;>
        simp [lead, Node.initial, restore, hcs.list, call, hcat]
  obtain ⟨hr, hj, hcat⟩ := hstores
  -- No uri holds anything, so nothing belongs anywhere and nothing is there.
  have hempty (uri : String) : (Node.initial.lead s active).catalog.get? uri = none := by
    rw [hcat, Catalog.get?_empty]
  exact {
    here := by
      rw [aside, active_lead]
      exact hlocal
    keyed := by
      intro uri spec hf
      rw [hempty] at hf
      cases hf
    mirrors := by
      intro uri
      rw [mirrorsAt_iff, hempty, slot, hr, hj]
      simp [settled, entry] }

/-- What is in step under every uri mirrors the catalog. -/
theorem Synced.toMirrors (h : Synced s n) : Mirrors s n where
  keyed := h.keyed
  registry uri f := by
    rw [(h.mirrors uri).1, Option.map_eq_some_iff]
    -- The registry by the first half of each slot.
    constructor
    · rintro ⟨⟨_, job⟩, he, rfl⟩
      obtain ⟨hcat, sch, hsch, _⟩ := entry_eq_some_iff.1 he
      exact ⟨hcat, sch, hsch⟩
    · rintro ⟨hcat, sch, hsch⟩
      exact ⟨(f, triggerOf s f sch), entry_eq_some_iff.2 ⟨hcat, sch, hsch, rfl⟩, rfl⟩
  jobs uri job := by
    -- The engine by the second, and a trigger is known by its fields.
    rw [(h.mirrors uri).2, Option.map_eq_some_iff]
    constructor
    · rintro ⟨⟨f, _⟩, he, rfl⟩
      obtain ⟨hcat, sch, hsch, rfl⟩ := entry_eq_some_iff.1 he
      exact ⟨f, sch, hcat, hsch, h.keyed uri _ hcat, rfl, rfl, rfl⟩
    · rintro ⟨f, sch, hcat, hsch, rfl, rfl, hpayload, hexclusive⟩
      obtain ⟨name, schedule, payload, exclusive⟩ := job
      obtain rfl : f.uri.text = name := h.keyed _ _ hcat
      cases hpayload
      cases hexclusive
      exact ⟨(f, _), entry_eq_some_iff.2 ⟨hcat, schedule, hsch, rfl⟩, rfl⟩

/-- After every sequence of puts, deletions and notices that replaces no flow by
    something else, the registry and the engine hold the flows of the catalog whose
    schedule can be used, and nothing else. -/
theorem mirrors_catalog (hc : s.catalogued = true) (hs : s.replies.EngineServes)
    (hcs : s.replies.CatalogServes) {active : Bool}
    (hlocal : standsAside active s.clustered = false) {cs : List Command}
    (hnews : ∀ c ∈ cs, c.isNews = true)
    (hkeep : KeepsFlows s (Node.initial.lead s active) cs) :
    Mirrors s ((Node.initial.lead s active).obeyAll s cs) :=
  (synced_obeyAll hc hs hcs hnews (synced_start hcs hlocal) hkeep).toMirrors

/-- A flow comes with a schedule, is replaced by a version whose schedule cannot be
    used and by one whose schedule can; another one comes and goes, a topology comes,
    and notices arrive of flows that are there, that are not, and of none. -/
def eventful : List Command :=
  let a : Label := ⟨"flow://a", by decide⟩
  let b : Label := ⟨"flow://b", by decide⟩
  let t : Label := ⟨"hosts://t", by decide⟩
  let one : Label := ⟨"1", by decide⟩
  let two : Label := ⟨"2", by decide⟩
  [.put (.flow (timed a one "0 0 * * *")), .put (.flow (timed a two "whenever")),
    .put (.flow (timed b one "0 6 * * *")), .notice (.ofRemoved .zero "flow://a" "1"),
    .put (.topology ⟨t, one, none⟩), .put (.flow (timed a two "30 6 * * *")),
    .notice ⟨.removed, "nothing", .zero⟩, .delete "flow://b", .notice (.ofAdded .zero "flow://b"),
    .notice (.ofAdded .zero "hosts://t"), .notice (.ofRemoved .zero "flow://b" "1")]

/-- After these commands one flow is left, scheduled as its last version says. -/
theorem mirrors_eventful :
    let s : Setup := .plain .reliable
    let n := (Node.initial.lead s true).obeyAll s eventful
    Mirrors s n ∧ n.installed = ["flow://a"] :=
  ⟨mirrors_catalog rfl Replies.reliable_engineServes Replies.reliable_catalogServes rfl
    (by decide +kernel) (by decide +kernel), by decide +kernel⟩

end FlowCadence.Node
