import FlowCadence.Proofs.Node.Backing
import Mathlib.Data.List.Nodup
/-! # Taking the lead

A node that starts to lead adds every spec that the catalog lists.  Each addition
touches the uri of its spec and no other, and a flow whose schedule can be used ends
up in the registry and in the engine as it is listed.

Nothing is taken away, though.  A node that ceases to lead keeps its registry and its
triggers, so what it kept of a flow that was deleted or lost its schedule meanwhile is
still there when it leads again.  The schedule is that of the catalog exactly when
every trigger that was kept is that of a flow which the catalog still offers.

## Key results

* `add_settledAt`: what an added spec leaves under its uri
* `addAll_of_not_mem`, `addAll_settledAt`: what a list of them leaves under a uri
* `rebuilt_lead_iff`: when the schedule is that of the catalog -/

namespace FlowCadence.Node

variable {s : Setup} {n : Node} {specs : List Spec}

/-- The specs have this flow under a uri, with a schedule that can be used. -/
def Setup.Offers (s : Setup) (specs : List Spec) (uri : String) (f : Flow) : Prop :=
  Spec.flow f ∈ specs ∧ f.uri.text = uri ∧ ∃ sch, s.Schedules f sch

/-- Where each uri is listed once, one flow at most is on offer under it. -/
theorem Setup.Offers.unique (hone : (specs.map Spec.uri).Nodup) {uri : String} {f g : Flow}
    (hf : s.Offers specs uri f) (hg : s.Offers specs uri g) : f = g := by
  have hspec : Spec.flow f = Spec.flow g :=
    List.inj_on_of_nodup_map hone hf.1 hg.1 (hf.2.1.trans hg.2.1.symm)
  cases hspec
  rfl

/-- The node has the flows scheduled that the specs offer, and nothing else. -/
structure Rebuilt (s : Setup) (specs : List Spec) (n : Node) : Prop where
  /-- The registry maps the uri of every flow on offer to that flow, and no other uri. -/
  registry : ∀ uri f, n.registry[uri]? = some f ↔ s.Offers specs uri f
  /-- No trigger is installed under another uri. -/
  jobs : ∀ uri job, n.jobs[uri]? = some job → ∃ f, s.Offers specs uri f

/-- The node with specs added one after another. -/
def addAll (s : Setup) (specs : List Spec) (n : Node) : Node :=
  specs.foldl (fun n spec => n.add s spec) n

/-- What adding specs makes of a node at a uri.  The flow on offer is there with its trigger;
    where no flow is on offer, a flow that was registered may have gone, but never a trigger. -/
def SettledAt (s : Setup) (specs : List Spec) (uri : String) (n n' : Node) : Prop :=
  (∃ f sch, s.Offers specs uri f ∧ s.Schedules f sch ∧ n'.registry[uri]? = some f ∧
    n'.jobs[uri]? = some (triggerOf s f sch)) ∨
  ((∀ f, ¬ s.Offers specs uri f) ∧
    (n'.registry[uri]? = n.registry[uri]? ∨ n'.registry[uri]? = none) ∧
    n'.jobs[uri]? = n.jobs[uri]?)

/-! ### One spec -/

/-- One spec settles its own uri. -/
theorem add_settledAt (hs : s.replies.EngineServes) (ha : n.aside s = false) (spec : Spec) :
    SettledAt s [spec] spec.uri n (n.add s spec) := by
  cases spec with
  -- A topology is no flow, and it leaves everything as it was.
  | topology t =>
    refine .inr ⟨fun f hf => ?_, .inl rfl, rfl⟩
    cases List.mem_singleton.1 hf.1
  | flow f =>
    by_cases hsch : ∃ sch, s.Schedules f sch
    -- The flow can be scheduled, so it is on offer and ends up in both tables.
    · obtain ⟨sch, hsch⟩ := hsch
      obtain ⟨hr, hj⟩ := addFlow_of_schedules hs ha hsch
      refine .inl ⟨f, sch, ⟨List.mem_singleton_self _, rfl, sch, hsch⟩, hsch, ?_, ?_⟩
      · show (n.addFlow s f).registry[f.uri.text]? = some f
        rw [hr, Table.lookUp_insert, if_pos rfl]
      · show (n.addFlow s f).jobs[f.uri.text]? = some (triggerOf s f sch)
        rw [hj, Table.lookUp_insert, if_pos rfl]
    -- It cannot be scheduled, so no flow is on offer and no trigger is touched.
    · have hno (sch : Cron.Schedule) : ¬ s.Schedules f sch := fun h => hsch ⟨sch, h⟩
      obtain ⟨hr, hj⟩ := addFlow_of_not_schedules hs ha hno
      refine .inr ⟨?_, ?_, ?_⟩
      · rintro g ⟨hg, -, sch, hsch⟩
        cases List.mem_singleton.1 hg
        exact hno sch hsch
      · show (n.addFlow s f).registry[f.uri.text]? = _ ∨
          (n.addFlow s f).registry[f.uri.text]? = none
        rcases hr with heq | heq
        -- What was registered stays, or it leaves the registry.
        · exact .inl (by rw [heq]; rfl)
        · exact .inr (by rw [heq, Table.lookUp_erase, if_pos rfl])
      · show (n.addFlow s f).jobs[f.uri.text]? = _
        rw [hj]
        rfl

/-! ### Many specs -/

/-- Specs are added in the order of the list. -/
theorem addAll_cons (spec : Spec) (specs : List Spec) (n : Node) :
    n.addAll s (spec :: specs) = (n.add s spec).addAll s specs :=
  rfl

/-- Specs under other uris touch nothing under this one. -/
theorem addAll_of_not_mem {uri : String} (h : ∀ spec ∈ specs, spec.uri ≠ uri) (n : Node) :
    (n.addAll s specs).registry[uri]? = n.registry[uri]? ∧
      (n.addAll s specs).jobs[uri]? = n.jobs[uri]? := by
  -- Going through the list, each spec leaves the uri alone.
  induction specs generalizing n with
  | nil => exact ⟨rfl, rfl⟩
  | cons spec specs ih =>
    obtain ⟨hr, hj⟩ := ih (fun spec hm => h spec (List.mem_cons_of_mem _ hm)) (n.add s spec)
    obtain ⟨hr', hj'⟩ := add_of_ne (s := s) (n := n) (h spec List.mem_cons_self)
    rw [addAll_cons]
    exact ⟨hr.trans hr', hj.trans hj'⟩

/-- Where each uri is listed once, the specs settle every uri: the one spec that is listed
    under it does, and those before and behind it leave it alone. -/
theorem addAll_settledAt (hs : s.replies.EngineServes) (ha : n.aside s = false)
    (hone : (specs.map Spec.uri).Nodup) (uri : String) :
    SettledAt s specs uri n (n.addAll s specs) := by
  induction specs generalizing n with
  | nil => exact .inr ⟨fun f hf => List.not_mem_nil hf.1, .inl rfl, rfl⟩
  | cons first rest ih =>
    obtain ⟨hnew, hrest⟩ := List.nodup_cons.1 hone
    rw [addAll_cons]
    by_cases heq : first.uri = uri
    -- The first spec settles the uri, and the rest are under other uris.
    · subst heq
      have hother (spec : Spec) (h : spec ∈ rest) : spec.uri ≠ first.uri :=
        fun heq => hnew (heq ▸ List.mem_map_of_mem h)
      -- Only the first spec can be on offer under its uri.
      have hoffers (f : Flow) : s.Offers (first :: rest) first.uri f ↔
          s.Offers [first] first.uri f := by
        refine and_congr_left fun ⟨heq, _⟩ => ?_
        rw [List.mem_cons, List.mem_singleton, or_iff_left]
        exact fun hf => hother _ hf heq
      obtain ⟨hr, hj⟩ := addAll_of_not_mem (s := s) hother (n.add s first)
      have hfirst := add_settledAt hs ha first
      simp only [SettledAt, hoffers, hr, hj]
      exact hfirst
    -- The first spec is under another uri, and the rest settle this one.
    · have hoffers (f : Flow) : s.Offers (first :: rest) uri f ↔ s.Offers rest uri f := by
        refine and_congr_left fun ⟨huri, _⟩ => ?_
        rw [List.mem_cons, or_iff_right]
        exact fun hf => heq (hf ▸ huri)
      obtain ⟨hr, hj⟩ := add_of_ne (s := s) (n := n) heq
      have hlater := ih (n := n.add s first) ((aside_congr (active_add s first n)).trans ha) hrest
      simp only [SettledAt, hoffers, ← hr, ← hj]
      exact hlater

/-! ### The start of a term -/

/-- A node that starts to lead adds what the catalog lists. -/
theorem lead_eq_addAll (hidle : n.active = false) (hc : s.catalogued = true)
    (hlist : ∀ k, s.replies.list k = .ok specs) :
    n.lead s true = (({ n with active := true } : Node).call .list).addAll s specs := by
  rw [lead, if_neg (by rw [hidle]; exact Bool.false_ne_true), if_pos rfl, restore, if_pos hc]
  dsimp only
  rw [hlist]
  rfl

/-- Let a node of a cluster, in any state that it can be found in on standby, start to
    lead, let the catalog list its specs, one under each uri, and let the engine serve its
    calls.  Then every flow on offer is registered and its trigger installed as it is
    listed.  The node has nothing else scheduled exactly when every trigger that it kept
    is under the uri of a flow on offer. -/
theorem rebuilt_lead_iff (hreach : Reachable s n) (hidle : n.active = false)
    (hc : s.catalogued = true) (hs : s.replies.EngineServes)
    (hlist : ∀ k, s.replies.list k = .ok specs) (hone : (specs.map Spec.uri).Nodup) :
    (∀ f sch, Spec.flow f ∈ specs → s.Schedules f sch →
      (n.lead s true).registry[f.uri.text]? = some f ∧
        (n.lead s true).jobs[f.uri.text]? = some (triggerOf s f sch)) ∧
    (Rebuilt s specs (n.lead s true) ↔
      ∀ uri job, n.jobs[uri]? = some job → ∃ f, s.Offers specs uri f) := by
  -- A node that can be found has its flows backed.
  have hb : n.Backed := .of_reachable hreach
  rw [lead_eq_addAll hidle hc hlist]
  let leading : Node := ({ n with active := true } : Node).call .list
  -- What the list settles under each uri is all that is needed.
  have hat := addAll_settledAt hs (n := leading) (aside_of_active rfl) hone
  have hoffer (f : Flow) (sch : Cron.Schedule) (hf : Spec.flow f ∈ specs)
      (hsch : s.Schedules f sch) : (leading.addAll s specs).registry[f.uri.text]? = some f ∧
        (leading.addAll s specs).jobs[f.uri.text]? = some (triggerOf s f sch) := by
    have hf : s.Offers specs f.uri.text f := ⟨hf, rfl, sch, hsch⟩
    -- The flow itself is on offer under its uri, so the settled one is this flow.
    rcases hat f.uri.text with ⟨g, sch', hg, hsch', hr, hj⟩ | ⟨hno, _⟩
    · obtain rfl := hf.unique hone hg
      obtain rfl := hsch.unique hsch'
      exact ⟨hr, hj⟩
    · exact absurd hf (hno f)
  refine ⟨hoffer, fun h uri job hjob => ?_, fun hkept => ⟨fun uri f => ⟨fun hf => ?_, ?_⟩, ?_⟩⟩
  · -- A trigger that was kept is there still, so it is under the uri of a flow on offer.
    rcases hat uri with ⟨f, _, hf, _⟩ | ⟨_, _, hj⟩
    · exact ⟨f, hf⟩
    · exact h.jobs uri job (hj.trans hjob)
  · -- A flow that was kept had its trigger, so it is one on offer.
    rcases hat uri with ⟨g, _, hg, _, hr, _⟩ | ⟨hno, hr | hr, _⟩
    · rw [hr] at hf
      cases hf
      exact hg
    · obtain ⟨job, hjob, _⟩ := hb uri f (hr.symm.trans hf)
      obtain ⟨g, hg⟩ := hkept uri job hjob
      exact absurd hg (hno g)
    · rw [hr] at hf
      cases hf
  -- A flow on offer is registered in any case.
  · rintro ⟨hm, rfl, sch, hsch⟩
    exact (hoffer f sch hm hsch).1
  -- A trigger that is installed now was kept, or it is that of a flow on offer.
  · intro uri job hjob
    rcases hat uri with ⟨f, _, hf, _⟩ | ⟨_, _, hj⟩
    · exact ⟨f, hf⟩
    · exact hkept uri job (hj.symm.trans hjob)

/-- The catalog lists these specs. -/
def Replies.listing (specs : List Spec) : Replies :=
  { Replies.reliable with list := fun _ => .ok specs }

/-- A node leads while the catalog lists `specs`, and then it steps down. -/
def termWith (specs : List Spec) : List Turn :=
  [⟨.listing specs, .accept (.lead true)⟩, ⟨.listing specs, .accept (.lead false)⟩]

private def restoredUri : Label := ⟨"flow://b", Eq.refl false⟩

private def weekly : Flow := timed restoredUri ⟨"1", Eq.refl false⟩ "0 0 * * 1"

/-- Another node gives the flow another schedule. -/
private def monthly : Flow := timed restoredUri ⟨"2", Eq.refl false⟩ "0 0 1 * *"

/-- Another node takes the schedule away. -/
private def unplanned : Flow := ⟨restoredUri, ⟨"2", Eq.refl false⟩, none, ∅⟩

/-- A flow whose schedule has changed is scheduled anew. -/
theorem rebuilt_with_monthly :
    let s : Setup := .plain (.listing [.flow monthly])
    let n := (Busy.start.run s (termWith [.flow weekly])).node
    Rebuilt s [.flow monthly] (n.lead s true) := by
  intro s n
  refine (rebuilt_lead_iff ⟨_, rfl⟩ (by decide +kernel) rfl ⟨fun _ _ => rfl, fun _ _ => rfl⟩
    (fun _ => rfl) (by decide +kernel)).2.2 ?_
  intro uri job hjob
  -- The only trigger that was kept is that of the flow.
  have honly : n.jobs.keys = ["flow://b"] := by decide +kernel
  have hmem : uri ∈ n.jobs.keys := by
    rw [Std.ExtTreeMap.mem_keys, Std.ExtTreeMap.mem_iff_isSome_getElem?, hjob]
    rfl
  rw [honly, List.mem_singleton] at hmem
  subst hmem
  exact ⟨monthly, List.mem_singleton_self _, rfl, by decide +kernel⟩

/-- A flow that was deleted while the node was on standby is scheduled when it leads again,
    though the catalog lists nothing. -/
theorem not_rebuilt_without_weekly :
    let s : Setup := .plain (.listing [])
    let n := (Busy.start.run s (termWith [.flow weekly])).node
    n.active = false ∧ (n.lead s true).scheduled = ["flow://b"] ∧
      (n.lead s true).installed = ["flow://b"] ∧ ¬ Rebuilt s [] (n.lead s true) := by
  refine ⟨by decide +kernel, by decide +kernel, by decide +kernel, fun h => ?_⟩
  -- The weekly flow is registered, and nothing is on offer.
  have hweekly := (h.registry "flow://b" weekly).1 (by decide +kernel)
  exact List.not_mem_nil hweekly.1

/-- A flow that has lost its schedule meanwhile keeps the old one. -/
example :
    let s : Setup := .plain (.listing [.flow unplanned])
    let n := (Busy.start.run s (termWith [.flow weekly])).node
    (n.lead s true).registry["flow://b"]? = some weekly := by
  decide +kernel

end FlowCadence.Node
