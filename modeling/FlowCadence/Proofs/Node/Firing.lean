import FlowCadence.Proofs.Node.Backing
import FlowCadence.Proofs.Node.Provenance
import FlowCadence.Proofs.Node.Running
import Mathlib.Data.List.Induction
/-! # What firings run

Which flow a firing runs is looked up anew every time, in the registry first.  The registry
may have lost the flow by then, after a removal or an addition that failed, and the trigger
may be of an earlier term.  But the registry never holds another flow than the trigger under
the same name, since a flow stays registered only with a trigger of its own (`Backed`).  So
a firing runs the flow that its trigger was installed for.

## Key results

* `Sourced.step`, `sourced_run`: what is installed and what is queued goes back to flows
* `flowFor_of_triggers`: the flow of a trigger is the one that is looked up
* `trigger_runs_its_flow`: what a firing runs, and that a queued job always runs some flow -/

namespace FlowCadence.Node

variable {s : Setup} {n : Node}

/-- In the course of the turns the trigger was installed for a flow that one of them brought,
    and it has been there ever since. -/
def InstalledFor (s : Setup) (turns : List Laden.Turn) (f : Flow) (name : String)
    (job : ScheduledJob) : Prop :=
  s.Triggers f name job ∧ ∃ before turn after, turns = before ++ turn :: after ∧
    f ∈ (Laden.start.run s before).brings { s with replies := turn.replies } turn.move ∧
    ∀ later, later <+: after →
      (Laden.start.run s (before ++ turn :: later)).node.jobs[name]? = some job

/-! ### Whole runs -/

/-- The last turn of a run comes behind all the others. -/
theorem run_concat (s : Setup) (turns : List Laden.Turn) (turn : Laden.Turn) :
    Laden.start.run s (turns ++ [turn]) =
      (Laden.start.run s turns).step { s with replies := turn.replies } turn.move := by
  simp [Laden.run]

/-- A trigger that the last turn leaves in its place is there for the same flow as before. -/
theorem InstalledFor.concat {turns : List Laden.Turn} {turn : Laden.Turn} {f : Flow}
    {name : String} {job : ScheduledJob} (h : InstalledFor s turns f name job)
    (hjob : (Laden.start.run s (turns ++ [turn])).node.jobs[name]? = some job) :
    InstalledFor s (turns ++ [turn]) f name job := by
  obtain ⟨htrigger, before, first, after, rfl, hbrings, hsince⟩ := h
  refine ⟨htrigger, before, first, after ++ [turn], by simp, hbrings, ?_⟩
  intro later hlater
  -- The turns up to some moment are within the old ones, or they are all of them and the last.
  rcases List.prefix_concat_iff.1 hlater with rfl | hearlier
  · simpa using hjob
  · exact hsince later hearlier

/-- A trigger that the last turn has installed is there for a flow that it has brought. -/
theorem InstalledFor.of_brings {turns : List Laden.Turn} {turn : Laden.Turn} {f : Flow}
    {name : String} {job : ScheduledJob} (htrigger : s.Triggers f name job)
    (hbrings : f ∈ (Laden.start.run s turns).brings { s with replies := turn.replies } turn.move)
    (hjob : (Laden.start.run s (turns ++ [turn])).node.jobs[name]? = some job) :
    InstalledFor s (turns ++ [turn]) f name job := by
  refine ⟨htrigger, turns, turn, [], rfl, hbrings, ?_⟩
  intro later hlater
  rw [List.prefix_nil.1 hlater]
  exact hjob

/-- What is installed and what is queued goes back to flows. -/
structure Sourced (s : Setup) (turns : List Laden.Turn) (n : Node) : Prop where
  backed : n.Backed
  installed : ∀ name job, n.jobs[name]? = some job → ∃ f, InstalledFor s turns f name job
  queued : QueuesFlows s n

/-- At the start nothing is installed or queued. -/
theorem sourced_start (s : Setup) : Sourced s [] Laden.start.node where
  backed := Backed.initial
  installed name job h := by
    simp [Laden.start, Laden.node, Busy.start, initial] at h
  queued config h := by
    simp [Laden.start, Laden.node, Busy.start, initial] at h

/-- Every turn keeps it so. -/
theorem Sourced.step {turns : List Laden.Turn} {turn : Laden.Turn}
    (h : Sourced s turns (Laden.start.run s turns).node) (hflows : turn.SchedulesFlows) :
    Sourced s (turns ++ [turn]) (Laden.start.run s (turns ++ [turn])).node := by
  have hinstalled (name : String) (job : ScheduledJob)
      (hjob : (Laden.start.run s (turns ++ [turn])).node.jobs[name]? = some job)
      (hsource : (Laden.start.run s turns).node.jobs[name]? = some job ∨
        ∃ f ∈ (Laden.start.run s turns).brings { s with replies := turn.replies } turn.move,
          s.Triggers f name job) : ∃ f, InstalledFor s (turns ++ [turn]) f name job := by
    rcases hsource with hold | ⟨f, hbrings, htrigger⟩
    · obtain ⟨f, hf⟩ := h.installed name job hold
      exact ⟨f, hf.concat hjob⟩
    · exact ⟨f, .of_brings htrigger hbrings hjob⟩
  -- Only work can install or queue anything.
  by_cases hwork : ∃ work, turn.move = .work work
  · obtain ⟨work, hwork⟩ := hwork
    have hnode : (Laden.start.run s (turns ++ [turn])).node =
        ((Laden.start.run s turns).busy.step { s with replies := turn.replies } work).node := by
      rw [run_concat, hwork]
      rfl
    have hmove (config : JobConfig) (listener : Bool) :
        work ≠ .accept (.schedule config listener) := by
      rintro rfl
      exact hflows config listener hwork
    constructor
    · rw [hnode]
      exact h.backed.move work
    · intro name job hjob
      apply hinstalled name job hjob
      rw [hnode] at hjob
      rw [hwork]
      exact jobs_busy_step_cases hmove hjob
    · rw [hnode]
      exact (QueuesFlows.invariant { s with replies := turn.replies }).move h.queued work
  · have hother (work : Move) : turn.move ≠ .work work := fun heq => hwork ⟨work, heq⟩
    obtain ⟨hregistry, hjobs, hqueued⟩ := laden_step_of_not_work
      (s := { s with replies := turn.replies }) (b := Laden.start.run s turns) hother
    rw [← run_concat] at hregistry hjobs hqueued
    constructor
    · exact h.backed.of_tables hregistry hjobs
    · intro name job hjob
      exact hinstalled name job hjob (.inl (hjobs ▸ hjob))
    · intro config hconfig
      exact h.queued config (hqueued config hconfig)

/-- Whatever the collaborators answer, what is installed and what is queued goes back to
    flows, after every run. -/
theorem sourced_run (s : Setup) (turns : List Laden.Turn)
    (hturns : ∀ turn ∈ turns, turn.SchedulesFlows) :
    Sourced s turns (Laden.start.run s turns).node := by
  -- The induction takes off the last turn, since that is the one that may install something.
  induction turns using List.reverseRecOn with
  | nil => exact sourced_start s
  | append_singleton turns turn ih =>
    have hbefore := ih fun t ht => hturns t (List.mem_append_left _ ht)
    exact hbefore.step (hturns turn (by simp))

/-! ### What a firing runs -/

/-- The registry has no other flow than that of the trigger, so this flow counts wherever it
    is looked up. -/
theorem flowFor_of_triggers (hb : n.Backed) {f : Flow} {name : String} {job : ScheduledJob}
    (hjob : n.jobs[name]? = some job) (h : s.Triggers f name job) :
    n.flowFor job.payload.effective = some f := by
  obtain ⟨rfl, sch, -, rfl⟩ := h
  have hname : (triggerOf s f sch).payload.effective.name = f.uri.text := name_configOf s f
  rw [flowFor, hname]
  cases hreg : n.registry[f.uri.text]? with
  | none => rfl
  | some g =>
    -- A registered flow is run by the trigger of its uri, and that is the trigger of `f`.
    obtain ⟨job, hbacked, -, hflow⟩ := hb f.uri.text g hreg
    rw [hjob] at hbacked
    cases hbacked
    exact hflow.symm

/-- Let a node be in any state that it can be found in, with any faults of its collaborators
    on the way, and with no trigger installed without a flow.  Then every trigger in the engine
    was installed for a flow that the node was brought.  If the node accepts a firing of it
    and nothing happens in between, then the orchestrator is called once, with that flow, and
    if the run fails, it fails as the orchestrator does.  Every queued job has a flow to run,
    whatever node it is that comes to run it. -/
theorem trigger_runs_its_flow (s : Setup) {turns : List Laden.Turn}
    (hturns : ∀ turn ∈ turns, turn.SchedulesFlows) (r : Replies) :
    let n := (Laden.start.run s turns).node
    (∀ name job, n.jobs[name]? = some job → ∃ f, InstalledFor s turns f name job ∧
      (n.aside s = false →
        let fault := r.run (n.engaged name f) f
        (n.fire { s with replies := r } job).1.trace =
            n.trace ++ runRecord f .firingFailed name fault ∧
          (n.fire { s with replies := r } job).2 =
            some (.state (if fault.isNone then .completed else .failed)))) ∧
    ∀ config ∈ n.queued, ∀ m : Node, ∃ f,
      ((Execution.Run.ready .queued config false).perform
          (runner { s with replies := r }) m).1.trace =
        m.trace ++ runRecord f .runFailed config.name (r.run (m.call (.run f)) f) := by
  intro n
  have hsourced : Sourced s turns n := sourced_run s turns hturns
  constructor
  · intro name job hjob
    obtain ⟨f, hf⟩ := hsourced.installed name job hjob
    refine ⟨f, hf, ?_⟩
    intro haside
    -- The flow for which the trigger was installed is the one that is looked up.
    have hflow := flowFor_of_triggers hsourced.backed hjob hf.1
    obtain ⟨⟨rfl, sch, -, rfl⟩, -⟩ := hf
    have hfire := fire_of_here (s := { s with replies := r }) haside hflow rfl
    rw [show (triggerOf s f sch).payload.effective.name = f.uri.text from name_configOf s f]
      at hfire
    exact hfire
  · intro config hconfig m
    obtain ⟨g, rfl⟩ := hsourced.queued config hconfig
    -- The flow that is attached stands in where none is registered.
    cases hreg : m.registry[(configOf s g).name]? with
    | none =>
      have hflow : m.flowFor (configOf s g) = some g := by
        rw [flowFor, hreg]
        rfl
      exact ⟨g, perform_queued { s with replies := r } hflow⟩
    | some f =>
      have hflow : m.flowFor (configOf s g) = some f := by
        rw [flowFor, hreg]
        rfl
      exact ⟨f, perform_queued { s with replies := r } hflow⟩

private def refusedUri : Label := ⟨"flow://m", Eq.refl false⟩

private def installedFlow : Flow := timed refusedUri ⟨"1", Eq.refl false⟩ "0 0 * * *"

private def refusedVersion : Flow := timed refusedUri ⟨"2", Eq.refl false⟩ "0 * * * *"

/-- A flow is scheduled.  Then it is added with another schedule, and the engine refuses. -/
private def refusedTurns : List Laden.Turn :=
  let refusing : Replies :=
    { Replies.reliable with install := fun _ _ => some (.unavailable "full") }
  [⟨.reliable, .work (.accept (.lead true))⟩,
    ⟨.reliable, .work (.accept (.change (.added (.flow installedFlow))))⟩,
    ⟨.reliable, .work (.advance 0)⟩, ⟨.reliable, .work (.advance 0)⟩,
    ⟨.reliable, .work (.accept (.change (.added (.flow refusedVersion))))⟩,
    ⟨refusing, .work (.advance 0)⟩]

/-- The trigger of the first version has lost its place in the registry, and it still runs the
    first version. -/
theorem nightly_runs_after_refusal :
    let s : Setup := .plain .reliable
    let n := (Laden.start.run s refusedTurns).node
    n.scheduled = [] ∧ ∃ job, n.jobs["flow://m"]? = some job ∧
      InstalledFor s refusedTurns installedFlow "flow://m" job ∧
      (n.fire s job).1.trace = n.trace ++ [.call (.run installedFlow)] := by
  intro s n
  have hturns : ∀ turn ∈ refusedTurns, turn.SchedulesFlows := by
    simp [refusedTurns, Laden.Turn.SchedulesFlows]
  have hattached : n.jobs["flow://m"]?.bind (·.payload.config.flow) = some installedFlow := by
    decide +kernel
  obtain ⟨job, hjob, hflow⟩ := Option.bind_eq_some_iff.1 hattached
  obtain ⟨f, hf, hfire⟩ := (trigger_runs_its_flow s hturns .reliable).1 "flow://m" job hjob
  have hsame : f = installedFlow := by
    obtain ⟨⟨-, sch, -, rfl⟩, -⟩ := hf
    exact Option.some.inj hflow
  subst hsame
  exact ⟨by decide +kernel, job, hjob, hf, (hfire (by decide +kernel)).1⟩

end FlowCadence.Node
