import FlowCadence.Node.Busy
import FlowCadence.Proofs.Node.Running
import FlowCadence.Proofs.Node.Standby
/-! # Runs that are submitted

A flow that is added or updated is run at once where it asks for that, or where it has no
schedule.  A job is queued for it, with the flow attached.

The job need not run that flow, though.  The registry counts first, and what is attached
only stands in where nothing is registered under the uri.  An update takes the old version
out of the registry, and a flow with a schedule takes its place, so these run what they
were queued for.  An added flow without a schedule leaves the registry alone: if another
version is registered under its uri, then that version is run in its place.

## Key results

* `queued_addFlow_cases`, `queued_update_cases`: a job is queued, and what is registered then
* `submitted_runs_iff`: when a submitted run hands over the flow that it was submitted for -/

namespace FlowCadence.Node

open Execution

variable {s : Setup} {n : Node} {f : Flow}

/-! ### What is queued, and what is registered then -/

/-- An added flow is queued or not.  If it is, then it is registered as well where it has a
    schedule, and otherwise the registry is as it was. -/
theorem queued_addFlow_cases (haside : n.aside s = false) (f : Flow) :
    (n.addFlow s f).queued = n.queued ∨
    ((n.addFlow s f).queued = n.queued ++ [configOf s f] ∧
      (n.addFlow s f).registry[f.uri.text]? =
        if (configOf s f).hasSchedule then some f else n.registry[f.uri.text]?) := by
  cases hc : (configOf s f).hasSchedule with
  -- Without a schedule nothing is registered, and the job is queued.
  | false =>
    right
    rw [addFlow_of_unscheduled haside hc]
    exact ⟨rfl, rfl⟩
  | true =>
    obtain ⟨registry, jobs, trace, heq⟩ := register_eq s f n
    have hqueued : (n.register s f).1.queued = n.queued := by rw [heq]
    rw [addFlow_of_scheduled haside hc]
    rcases register_cases s f n with ⟨hgood, sch, -, hregistry, -⟩ | ⟨hrefused, -⟩
    · -- The trigger is installed, so it is up to the flow whether it runs now as well.
      cases hatOnce : (configOf s f).runsAtOnce with
      | false =>
        left
        simp [hqueued]
      | true =>
        right
        simp [hgood, enqueue, hqueued, hregistry]
    · left
      -- The engine refuses the trigger, and nothing runs.
      simp [hrefused, hqueued]

/-- The same holds of an updated flow, but the old version has left the registry. -/
theorem queued_update_cases (haside : n.aside s = false) (f : Flow) :
    (n.update s (.flow f)).queued = n.queued ∨
    ((n.update s (.flow f)).queued = n.queued ++ [configOf s f] ∧
      (n.update s (.flow f)).registry[f.uri.text]? =
        if (configOf s f).hasSchedule then some f else none) := by
  obtain ⟨jobs, trace, heq⟩ := unschedule_eq s f.uri.text n
  have hqueued : (n.unschedule s f.uri.text).queued = n.queued := by rw [heq]
  have hgone : (n.unschedule s f.uri.text).registry[f.uri.text]? = none := by
    rw [registry_unschedule, Table.lookUp_erase, if_pos rfl]
  have hhere : (n.unschedule s f.uri.text).aside s = false :=
    (aside_congr (active_unschedule s f.uri.text n)).trans haside
  -- The flow is added to a node that has nothing registered under its uri.
  have hadd := queued_addFlow_cases hhere f
  rw [hqueued, hgone] at hadd
  rw [update_of_here haside]
  exact hadd

/-! ### What the job runs -/

/-- Let a node, in any state, do its work itself, let a flow be added or updated, and let a
    job be queued by that.  Then it is the job of this flow.  If it is run before anything else
    happens, then one flow is handed to the orchestrator.  It is this very flow exactly if the
    flow was updated, or has a schedule, or no other flow was registered under its uri. -/
theorem submitted_runs_iff (haside : n.aside s = false) {c : Catalog.Change}
    (hc : c = .added (.flow f) ∨ c = .updated (.flow f))
    (hsubmits : (n.obey s (.change c)).queued ≠ n.queued) (r : Replies) :
    let m := n.obey s (.change c)
    let taken : Node := { m with queued := n.queued }
    m.queued = n.queued ++ [configOf s f] ∧
    ∃ g, ((Run.ready .queued (configOf s f) false).perform
        (runner { s with replies := r }) taken).1.trace =
          m.trace ++ runRecord g .runFailed f.uri.text (r.run (taken.call (.run g)) g) ∧
      (g = f ↔ c = .updated (.flow f) ∨ (configOf s f).hasSchedule = true ∨
        ∀ other, n.registry[f.uri.text]? = some other → other = f) := by
  intro m taken
  -- What is registered once the job is queued is what the job runs.
  have hruns (registered : Option Flow) (hm : m.registry[f.uri.text]? = registered) :
      ((Run.ready .queued (configOf s f) false).perform
          (runner { s with replies := r }) taken).1.trace =
        m.trace ++ runRecord (registered.getD f) .runFailed f.uri.text
          (r.run (taken.call (.run (registered.getD f))) (registered.getD f)) := by
    have hflow : taken.flowFor (configOf s f) = some (registered.getD f) := by
      rw [flowFor, name_configOf, show taken.registry = m.registry from rfl, hm]
      cases registered <;> rfl
    have hperform := perform_queued { s with replies := r } hflow
    rw [name_configOf] at hperform
    exact hperform
  rcases hc with rfl | rfl
  · have hobey : m = n.addFlow s f := obey_change s (.added (.flow f)) n rfl
    rcases queued_addFlow_cases haside f with hnone | ⟨hqueued, hregistry⟩
    · exact absurd ((congrArg Node.queued hobey).trans hnone) hsubmits
    · rw [← hobey] at hqueued hregistry
      refine ⟨hqueued, _, hruns _ hregistry, ?_⟩
      cases hsched : (configOf s f).hasSchedule with
      -- With a schedule the flow itself is registered by now.
      | true => simp
      | false =>
        -- Nothing was registered for the flow, so an older version is still there if there was one.
        cases n.registry[f.uri.text]? <;> simp
  · have hobey : m = n.update s (.flow f) := obey_change s (.updated (.flow f)) n rfl
    rcases queued_update_cases haside f with hnone | ⟨hqueued, hregistry⟩
    · exact absurd ((congrArg Node.queued hobey).trans hnone) hsubmits
    · rw [← hobey] at hqueued hregistry
      refine ⟨hqueued, _, hruns _ hregistry, ?_⟩
      -- Whether or not the new version is registered, the old one is not.
      cases hsched : (configOf s f).hasSchedule <;> simp

private def submittedUri : Label := ⟨"flow://p", Eq.refl false⟩

private def recurringVersion : Flow := timed submittedUri ⟨"1", Eq.refl false⟩ "0 0 * * *"

/-- The next version has no schedule, so it is to run once. -/
private def singleVersion : Flow := ⟨submittedUri, ⟨"2", Eq.refl false⟩, none, ∅⟩

/-- A node takes the lead and hears of the first version. -/
private def leadingTurns : List Turn :=
  [⟨.reliable, .accept (.lead true)⟩,
    ⟨.reliable, .accept (.change (.added (.flow recurringVersion)))⟩,
    ⟨.reliable, .advance 0⟩, ⟨.reliable, .advance 0⟩]

/-- The next version is run if the node hears of it as of an update. -/
theorem updated_runs_itself :
    let s : Setup := .plain .reliable
    let n := (Busy.start.run s leadingTurns).node
    let m := n.obey s (.change (.updated (.flow singleVersion)))
    n.registry["flow://p"]? = some recurringVersion ∧ m.queued = [configOf s singleVersion] ∧
      ((Run.ready .queued (configOf s singleVersion) false).perform (runner s)
        { m with queued := [] }).1.trace = m.trace ++ [.call (.run singleVersion)] := by
  intro s n m
  obtain ⟨hqueued, g, hrun, hself⟩ := submitted_runs_iff (s := s) (n := n) (f := singleVersion)
    (by decide +kernel) (.inr rfl) (by decide +kernel) .reliable
  obtain rfl := hself.2 (.inl rfl)
  exact ⟨by decide +kernel, hqueued, hrun⟩

/-- The first version is run in its place if the node hears of it as of an addition. -/
theorem not_submitted_runs_itself :
    ¬ ∀ (s : Setup) (n : Node) (f : Flow) (c : Catalog.Change), Reachable s n →
      n.aside s = false → (c = .added (.flow f) ∨ c = .updated (.flow f)) →
      (n.obey s (.change c)).queued ≠ n.queued →
      let m := n.obey s (.change c)
      let taken : Node := { m with queued := n.queued }
      ((Run.ready .queued (configOf s f) false).perform (runner s) taken).1.trace =
        m.trace ++ runRecord f .runFailed f.uri.text (s.replies.run (taken.call (.run f)) f) := by
  intro h
  have hself := h (.plain .reliable) (Busy.start.run (.plain .reliable) leadingTurns).node
    singleVersion (.added (.flow singleVersion)) ⟨leadingTurns, rfl⟩ (by decide +kernel) (.inl rfl)
    (by decide +kernel)
  exact absurd hself (by decide +kernel)

end FlowCadence.Node
