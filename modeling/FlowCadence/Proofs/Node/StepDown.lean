import FlowCadence.Node.Chore
import FlowCadence.Proofs.Node.Provenance
import FlowCadence.Proofs.Node.Standby
/-! # Ceasing to lead

A node that ceases to lead goes through the flows that it has scheduled, in ascending order
of their uris.  In a cluster it stands aside by then: it hands each of them on in a notice,
and but for the flag nothing of it changes.  On its own it unschedules them: the engine is
asked for the trigger of each, and in the end no flow is registered.

Neither a notice that could not be sent nor a trigger that could not be removed keeps it from
going on to the next flow.

## Key results

* `chore_act_cases`, `active_chore_act`: what chores leave alone
* `Keyed.of_arises`: a flow is registered under its own uri
* `relays_deleteAll`, `unschedules_deleteAll`: what going through flows comes to
* `cessation_complete`: every registered flow is dealt with once, and nothing else is -/

namespace FlowCadence.Node

variable {s : Setup} {n m : Node}

/-! ### Chores -/

/-- A request to stop is noted of the execution at most. -/
theorem interrupt_eq (s : Setup) (name : String) (n : Node) :
    ∃ executions trace, (n.interrupt s name).1 = { n with executions, trace } := by
  rw [interrupt]
  -- The job is not there, or its execution does not run, or it is asked to stop.
  split
  · exact ⟨n.executions, _, rfl⟩
  · split
    · exact ⟨_, _, rfl⟩
    · exact ⟨n.executions, _, rfl⟩

/-- A chore is a stage of an activity, or else neither the flag nor the registry changes. -/
theorem chore_act_cases (s : Setup) (n : Node) (c : Chore) :
    (∃ a, c = .stage a) ∨ ∃ jobs executions catalog queued trace,
      c.act s n = { n with jobs, executions, catalog, queued, trace } := by
  cases c with
  | stage a => exact .inl ⟨a, rfl⟩
  | schedule config listener =>
    -- A trigger is installed for a job.
    obtain ⟨jobs, trace, heq⟩ := schedule_eq s config listener n
    exact .inr ⟨jobs, n.executions, n.catalog, n.queued, trace, heq⟩
  | duty d =>
    obtain ⟨executions, trace, heq⟩ := duty_step_eq s d n
    exact .inr ⟨n.jobs, executions, n.catalog, n.queued, trace, heq⟩
  | take place => exact .inr ⟨n.jobs, n.executions, n.catalog, _, n.trace, rfl⟩
  | interrupt name =>
    obtain ⟨executions, trace, heq⟩ := interrupt_eq s name n
    exact .inr ⟨n.jobs, executions, n.catalog, n.queued, trace, heq⟩
  | elsewhere catalog => exact .inr ⟨n.jobs, n.executions, catalog, n.queued, n.trace, rfl⟩

/-- No chore makes a node lead or step down. -/
theorem active_chore_act (s : Setup) (n : Node) (c : Chore) :
    (c.act s n).active = n.active := by
  rcases chore_act_cases s n c with ⟨a, rfl⟩ | ⟨_, _, _, _, _, heq⟩
  · exact active_activity_step s a n
  · rw [heq]

/-! ### The registry of a node -/

/-- Every flow is registered under its own uri. -/
def Keyed (n : Node) : Prop :=
  ∀ (uri : String) (f : Flow), n.registry[uri]? = some f → f.uri.text = uri

namespace Keyed

/-- A node that was just made has no flow registered. -/
theorem initial : Keyed .initial := by
  intro uri f h
  simp [Node.initial] at h

/-- What is registered says whether it is under its own uri. -/
theorem of_registry (h : n.Keyed) (hm : m.registry = n.registry) : m.Keyed := by
  intro uri f hf
  rw [hm] at hf
  exact h uri f hf

/-- A flow that leaves the registry does no harm. -/
theorem of_erase (h : n.Keyed) {uri : String} (hm : m.registry = n.registry.erase uri) :
    m.Keyed := by
  intro a f hf
  rw [hm, Table.lookUp_erase] at hf
  split at hf
  · cases hf
  · exact h a f hf

/-- An added flow gets its place under its own uri. -/
theorem addFlow (h : n.Keyed) (f : Flow) : (n.addFlow s f).Keyed := by
  rcases addFlow_cases s f n with ⟨hr, -⟩ | ⟨_, -, hr, -⟩ | ⟨hr, -⟩
  · exact h.of_registry hr
  -- It is entered under its uri, and the others stay.
  · intro uri g hg
    rw [hr, Table.lookUp_insert] at hg
    split at hg
    · next heq =>
      cases hg
      exact heq
    · exact h uri g hg
  · exact h.of_erase hr

/-- What is written leaves every flow under its own uri. -/
theorem invariant (s : Setup) : Invariant s Keyed where
  noted _ _ _ h := h.of_registry rfl
  addFlow f h := h.addFlow f
  unschedule uri h := h.of_erase (registry_unschedule s uri _)
  schedule config listener h := by
    obtain ⟨jobs, trace, heq⟩ := schedule_eq s config listener _
    rw [heq]
    exact h.of_registry rfl

/-- Every chore keeps the flows under their uris. -/
theorem chore_act (h : n.Keyed) (c : Chore) : (c.act s n).Keyed := by
  rcases chore_act_cases s n c with ⟨a, rfl⟩ | ⟨_, _, _, _, _, heq⟩
  · exact (invariant s).activity_step h a
  · rw [heq]
    exact h.of_registry rfl

/-- So in whatever way a node arises, its flows are under their uris, by induction on that way. -/
theorem of_arises (h : Arises s n) : n.Keyed := by
  induction h with
  | initial => exact initial
  | lead replies active _ ih => exact (invariant _).lead ih active
  | chore replies c _ ih => exact ih.chore_act c

end Keyed

/-- The list holds the flows of a registry with their uris, in ascending order of the uris. -/
structure Roster (registry : Table Flow) (entries : List (String × Flow)) : Prop where
  ascending : entries.Pairwise fun a b => a.1 < b.1
  complete : ∀ uri f, (uri, f) ∈ entries ↔ registry[uri]? = some f

/-- The list of a table is sorted, and it holds what the table holds. -/
theorem roster_toList (registry : Table Flow) : Roster registry registry.toList where
  ascending := registry.ascending_toList
  complete _ _ := Std.ExtTreeMap.mem_toList_iff_getElem?_eq_some

/-! ### Unscheduling and nothing else -/

/-- The second node is the first one after it has unscheduled `uris`: the engine is asked for
    their triggers, one after another, and nobody is asked for anything else. -/
structure Unschedules (n m : Node) (uris : List String) : Prop where
  asks : m.calls = n.calls ++ uris.map .remove
  strikes : ∀ uri, m.registry[uri]? = if uri ∈ uris then none else n.registry[uri]?
  spares : ∀ uri ∉ uris, m.jobs[uri]? = n.jobs[uri]? ∧
    m.executions.records[uri]? = n.executions.records[uri]?
  frame : m = { n with
    registry := m.registry, jobs := m.jobs, executions := m.executions, trace := m.trace }

/-- The engine is asked once for the trigger of an unscheduled flow, and that it could not be
    removed is no call. -/
theorem calls_unschedule (s : Setup) (uri : String) (n : Node) :
    (n.unschedule s uri).calls = n.calls ++ [.remove uri] := by
  have hasked : (({ n.strike uri with
      executions := n.executions.forget uri } : Node).call (.remove uri)).calls =
      n.calls ++ [.remove uri] := calls_call _ _
  -- The call is on record before the engine answers.
  rw [unschedule, removeTrigger]
  split
  · exact (calls_alert _ _).trans hasked
  · split
    · exact hasked
    · exact (calls_alert _ _).trans hasked

namespace Unschedules

theorem refl (n : Node) : Unschedules n n [] where
  asks := by simp
  strikes uri := by simp
  spares uri _ := ⟨rfl, rfl⟩
  frame := rfl

theorem trans {k : Node} {uris more : List String} (h : Unschedules n m uris)
    (h' : Unschedules m k more) : Unschedules n k (uris ++ more) where
  asks := by rw [h'.asks, h.asks, List.map_append, List.append_assoc]
  strikes uri := by
    -- A uri that is in both lists was struck already.
    rw [h'.strikes, h.strikes]
    by_cases hmore : uri ∈ more <;> simp [hmore]
  spares uri huri := by
    rw [List.mem_append, not_or] at huri
    obtain ⟨hjobs, hrecords⟩ := h.spares uri huri.1
    obtain ⟨hjobs', hrecords'⟩ := h'.spares uri huri.2
    exact ⟨hjobs'.trans hjobs, hrecords'.trans hrecords⟩
  frame := by
    rw [h'.frame, h.frame]

/-- What unscheduling one uri comes to, whether or not its trigger could be removed. -/
theorem unschedule (s : Setup) (uri : String) (n : Node) :
    Unschedules n (n.unschedule s uri) [uri] where
  asks := calls_unschedule s uri n
  strikes a := by
    rw [registry_unschedule, Table.lookUp_erase]
    simp [eq_comm]
  spares a ha := by
    -- The uri that is unscheduled is the only one in the list.
    have hne : uri ≠ a := fun heq => ha (List.mem_singleton.2 heq.symm)
    refine ⟨jobs_unschedule_of_ne hne, ?_⟩
    obtain ⟨jobs, trace, heq⟩ := unschedule_eq s uri n
    rw [heq]
    exact (Execution.Tracker.getElem?_forget _ _ _).trans (if_neg hne)
  frame := by
    obtain ⟨jobs, trace, heq⟩ := unschedule_eq s uri n
    rw [heq]

end Unschedules

/-! ### Going through the flows -/

/-- What a node that stands aside hands on of a flow that it deletes. -/
def departure (entry : String × Flow) : Notice.Kind × String :=
  (.removed, entry.1 ++ ":" ++ entry.2.version.text)

/-- The node after it has deleted flows, one after another. -/
def deleteAll (s : Setup) (n : Node) (entries : List (String × Flow)) : Node :=
  entries.foldl (fun n entry => n.delete s entry.2.uri.text entry.2.version.text) n

/-- A leading node that ceases to lead deletes what it has registered. -/
theorem lead_false_eq (hn : n.active = true) :
    n.lead s false = ({ n with active := false } : Node).deleteAll s n.registry.toList := by
  rw [lead, if_neg (by simp [hn]), if_neg Bool.false_ne_true, deleteAll]

/-- A node that stands aside hands on one flow after the other. -/
theorem relays_deleteAll (hc : s.clustered = true) {n : Node} (hn : n.active = false)
    {entries : List (String × Flow)} (hkeyed : ∀ entry ∈ entries, entry.2.uri.text = entry.1) :
    Relays n (n.deleteAll s entries) (entries.map departure) := by
  -- By induction on the list of flows.
  induction entries generalizing n with
  | nil => exact .refl n
  | cons entry entries ih =>
    have haside : n.aside s = true := by simp [aside, standsAside, hc, hn]
    have hfirst :
        Relays n (n.delete s entry.2.uri.text entry.2.version.text) [departure entry] := by
      -- It is handed on under the uri under which it was registered.
      rw [delete, if_pos haside, hkeyed entry List.mem_cons_self]
      exact relays_forward hc _ _ n
    -- It still stands aside when it comes to the next flow.
    have hrest := ih (hfirst.active_eq.trans hn) fun e he => hkeyed e (List.mem_cons_of_mem _ he)
    exact hfirst.trans hrest

/-- A node that is on its own unschedules one flow after the other. -/
theorem unschedules_deleteAll (hc : s.clustered = false) (n : Node)
    {entries : List (String × Flow)} (hkeyed : ∀ entry ∈ entries, entry.2.uri.text = entry.1) :
    Unschedules n (n.deleteAll s entries) (entries.map (·.1)) := by
  induction entries generalizing n with
  | nil => exact .refl n
  | cons entry entries ih =>
    have hhere : n.aside s = false := by simp [aside, standsAside, hc]
    -- A node on its own never stands aside.
    have hfirst : Unschedules n (n.delete s entry.2.uri.text entry.2.version.text) [entry.1] := by
      rw [delete, if_neg (by simp [hhere]), hkeyed entry List.mem_cons_self]
      exact .unschedule s entry.1 n
    -- Being on its own does not hang on the state of the node.
    have hrest := ih (n.delete s entry.2.uri.text entry.2.version.text)
      fun e he => hkeyed e (List.mem_cons_of_mem _ he)
    exact hfirst.trans hrest

/-- Once all of its flows are unscheduled, a node has none. -/
theorem Unschedules.registry_eq_empty {uris : List String} (h : Unschedules n m uris)
    (hall : ∀ uri f, n.registry[uri]? = some f → uri ∈ uris) : m.registry = ∅ := by
  apply Std.ExtTreeMap.ext_getElem?
  intro uri
  -- What was registered is in the list, and so it was struck.
  rw [h.strikes, Std.ExtTreeMap.getElem?_empty]
  split
  · rfl
  · next hout =>
    cases hf : n.registry[uri]? with
    | none => rfl
    | some f => exact absurd (hall uri f hf) hout

/-! ### Ceasing to lead -/

/-- A leading node that is to cease deals with all of the flows that it has registered, in
    ascending order of their uris, and with each of them once.  In a cluster it sends a notice
    that the version it has was removed; but for the flag and the trace it stays as it is.  On
    its own it unschedules the flow, and in the end it has none; its catalog and its queue stay
    as they are.

    It does not matter what has happened to the node before, nor how its collaborators answer.
    A node that is told what it does already does nothing at all. -/
theorem cessation_complete (h : Arises s n) (hn : n.active = true) :
    Roster n.registry n.registry.toList ∧
      (s.clustered = true → Relays { n with active := false } (n.lead s false)
        (n.registry.toList.map departure)) ∧
      (s.clustered = false →
        Unschedules { n with active := false } (n.lead s false) (n.registry.toList.map (·.1)) ∧
          (n.lead s false).registry = ∅) ∧
      ∀ m : Node, m.lead s m.active = m := by
  have hroster : Roster n.registry n.registry.toList := roster_toList n.registry
  -- The list has each flow under its own uri, which is what a deletion goes by.
  have hkeyed : ∀ entry ∈ n.registry.toList, entry.2.uri.text = entry.1 := fun entry hmem =>
    Keyed.of_arises h entry.1 entry.2 ((hroster.complete entry.1 entry.2).1 hmem)
  rw [lead_false_eq hn]
  refine ⟨hroster, fun hc => relays_deleteAll hc rfl hkeyed, fun hc => ?_, fun m => ?_⟩
  -- On its own: all that is registered is in the list, so nothing is left.
  · have hunschedules := unschedules_deleteAll hc { n with active := false } hkeyed
    refine ⟨hunschedules, hunschedules.registry_eq_empty fun uri f hf => ?_⟩
    exact List.mem_map.2 ⟨(uri, f), (hroster.complete uri f).2 hf, rfl⟩
  · rw [lead, if_pos rfl]

/-- No notice gets through, and the engine fails to remove one of two triggers. -/
private def failingSetup (clustered : Bool) : Setup :=
  { Setup.plain { Replies.reliable with
      send := fun _ _ => some (.internal "channel full")
      remove := fun _ name => if name = "flow://a" then some (.internal "engine down") else none }
    with clustered }

private def weeklyFlow : Flow := timed ⟨"flow://b", Eq.refl false⟩ ⟨"2", Eq.refl false⟩ "0 0 * * 0"

private def nightlyFlow : Flow := timed ⟨"flow://a", Eq.refl false⟩ ⟨"1", Eq.refl false⟩ "0 0 * * *"

/-- A node that leads and has scheduled the two flows, the later one first. -/
private def leaderOfTwo (clustered : Bool) : Node :=
  let s := failingSetup clustered
  (Chore.stage (.enter (.flow nightlyFlow))).act s
    ((Chore.stage (.enter (.flow weeklyFlow))).act s (Node.initial.lead s true))

/-- Such a leader can arise. -/
private theorem arises_leaderOfTwo (clustered : Bool) :
    Arises (failingSetup clustered) (leaderOfTwo clustered) :=
  let replies := (failingSetup clustered).replies
  .chore replies (.stage (.enter (.flow nightlyFlow)))
    (.chore replies (.stage (.enter (.flow weeklyFlow))) (.lead replies true .initial))

/-- In a cluster both flows are handed on, and both triggers stay.  On its own the node asks
    for both, and the trigger that could not be removed is left without a flow. -/
theorem cessation_failing :
    let handed := (leaderOfTwo true).lead (failingSetup true) false
    let cleared := (leaderOfTwo false).lead (failingSetup false) false
    Arises (failingSetup true) (leaderOfTwo true) ∧ (leaderOfTwo true).active = true ∧
      (∃ notices : List Notice, handed.calls = (leaderOfTwo true).calls ++ notices.map .send ∧
        notices.map Notice.about = [(.removed, "flow://a:1"), (.removed, "flow://b:2")]) ∧
      handed.jobs.keys = ["flow://a", "flow://b"] ∧
      Arises (failingSetup false) (leaderOfTwo false) ∧ (leaderOfTwo false).active = true ∧
      cleared.calls = (leaderOfTwo false).calls ++ [.remove "flow://a", .remove "flow://b"] ∧
      cleared.registry = ∅ ∧ cleared.jobs.keys = ["flow://a"] := by
  intro handed cleared
  -- Both nodes lead, so the theorem speaks of them.
  have hleads (clustered : Bool) : (leaderOfTwo clustered).active = true := by
    cases clustered <;> decide +kernel
  obtain ⟨-, hcluster, -, -⟩ := cessation_complete (arises_leaderOfTwo true) (hleads true)
  obtain ⟨-, -, hsingle, -⟩ := cessation_complete (arises_leaderOfTwo false) (hleads false)
  obtain ⟨hunschedules, hempty⟩ := hsingle rfl
  -- In a cluster the triggers are those from before.
  have hhanded : handed.jobs = (leaderOfTwo true).jobs :=
    (congrArg Node.jobs (hcluster rfl).same).trans rfl
  have hinstalled : (leaderOfTwo true).jobs.keys = ["flow://a", "flow://b"] := by decide +kernel
  refine ⟨arises_leaderOfTwo true, hleads true, ?_, ?_, arises_leaderOfTwo false, hleads false,
    hunschedules.asks, hempty, by decide +kernel⟩
  · obtain ⟨notices, hcalls, habout⟩ := (hcluster rfl).sends
    exact ⟨notices, hcalls, habout.trans (by decide +kernel)⟩
  · rw [hhanded, hinstalled]

end FlowCadence.Node
