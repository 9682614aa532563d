import FlowCadence.Node.Schedule
/-! # Runs that nothing interrupts

What comes of a run when nothing else happens before it is over.  The node looks up the
flow of the job, and the orchestrator is called with that flow.  No other call is made, and
if the run fails, it fails as the orchestrator did.

A firing and a queued job differ in what becomes of a failure only, and the firing in its
execution as well.

## Key results

* `finish_begin`: an execution that nobody interrupts ends as its run does
* `perform_ready`: a run whose flow is found, from its start to its end
* `perform_queued`, `fire_of_here`: queued jobs and firings -/

namespace FlowCadence

open Execution

/-- The end of an execution that has just begun is that of its run, and the tracker is not
    out of step. -/
theorem Execution.Tracker.finish_begin (t : Tracker) (name : String) (good : Bool) :
    ((t.begin name).finish name good).2 = (if good then .completed else .failed, none) := by
  cases good <;> simp [finish, getElem?_begin, ending, State.after]

namespace Node

variable {s : Setup} {n : Node} {config : JobConfig} {f : Flow}

/-- What a run comes to by what the orchestrator answers. -/
def resultOf (job : String) : Option Fault → Except Failure Unit
  | none => .ok ()
  | some fault => .error ⟨.running, job, fault⟩

/-- What goes on record when the orchestrator runs a flow for a job: the call, and an alert
    if it fails. -/
def runRecord (f : Flow) (alarm : Failure → Alert) (job : String) (fault : Option Fault) :
    List Event :=
  .call (.run f) :: (fault.map fun fault => .alert (alarm ⟨.running, job, fault⟩)).toList

/-- The node when a firing of a trigger has handed a flow to the orchestrator. -/
def engaged (name : String) (f : Flow) (n : Node) : Node :=
  ({ n with executions := n.executions.begin name }).call (.run f)

/-- Nobody is told how the run ended. -/
theorem takeBack_unheard (s : Setup) (f : Flow) (job : String) (n : Node) :
    n.takeBack s ⟨f, job, false⟩ = (n, resultOf job (s.replies.run n f)) := by
  cases hr : s.replies.run n f <;> simp [takeBack, hr, resultOf]

/-- A run whose flow is found hands it over, and ends with what the orchestrator answers. -/
theorem perform_ready (hflow : n.flowFor config = some f) (origin : Run.Origin) :
    let called := n.call (.run f)
    let ending := Run.close (runner s) (resultOf config.name (s.replies.run called f)) origin called
    (Run.ready origin config false).perform (runner s) n = (ending.1, some ending.2) := by
  intro called ending
  -- The three stages of the run: it starts, the orchestrator answers, and it is closed.
  have hstart : (Run.ready origin config false).step (runner s) n =
      (called, .next (.underway origin ⟨f, config.name, false⟩)) := by
    simp [Run.step, runner, handOver, hflow, called]
  have hback : (Run.underway origin ⟨f, config.name, false⟩).step (runner s) called =
      (called, .next (.returned origin (resultOf config.name (s.replies.run called f)))) := by
    simp [Run.step, runner, takeBack_unheard]
  have hend : (Run.returned origin (resultOf config.name (s.replies.run called f))).step
      (runner s) called = (ending.1, .done ending.2) := rfl
  rw [Run.perform, Run.rank]
  simp only [Run.finishWithin, hstart, hback, hend]

/-! ### Queued jobs -/

/-- A queued job whose flow is found leaves the call on record, and an alert if the
    orchestrator fails. -/
theorem perform_queued (s : Setup) (hflow : n.flowFor config = some f) :
    ((Run.ready .queued config false).perform (runner s) n).1.trace =
      n.trace ++ runRecord f .runFailed config.name (s.replies.run (n.call (.run f)) f) := by
  rw [perform_ready hflow]
  cases hr : s.replies.run (n.call (.run f)) f with
  | none => simp [Run.close, resultOf, runRecord, call]
  | some fault => simp [Run.close, resultOf, runRecord, runner, call, alert]

/-! ### Firings -/

/-- A firing whose execution has just begun leaves an alert if its run failed, and its
    execution ends as the run did. -/
theorem close_begun {t : Tracker} {name : String} (h : n.executions = t.begin name) (job : String)
    (fault : Option Fault) :
    let ending := Run.close (runner s) (resultOf job fault) (.firing name) n
    ending.1.trace =
        n.trace ++ (fault.map fun fault => .alert (.firingFailed ⟨.running, job, fault⟩)).toList ∧
      ending.2 = .state (if fault.isNone then .completed else .failed) := by
  intro ending
  have hfinish (good : Bool) : ∃ executions, n.executions.finish name good =
      (executions, if good then .completed else .failed, none) := by
    -- The tracker holds an execution that has just begun, so it can finish.
    rw [h]
    exact ⟨_, Prod.ext rfl (t.finish_begin name good)⟩
  cases fault with
  | none =>
    obtain ⟨executions, heq⟩ := hfinish true
    simp [ending, Run.close, runner, resultOf, succeeded, heq]
  | some fault =>
    obtain ⟨executions, heq⟩ := hfinish false
    simp [ending, Run.close, runner, resultOf, succeeded, heq, alert]

/-- A firing that is accepted, and whose flow is found, leaves the call on record, and an
    alert if the orchestrator fails.  Its execution ends in the same way. -/
theorem fire_of_here (haside : n.aside s = false) {job : ScheduledJob}
    (hflow : n.flowFor job.payload.effective = some f) (hlistener : job.payload.listener = false) :
    let fault := s.replies.run (n.engaged job.name f) f
    (n.fire s job).1.trace =
        n.trace ++ runRecord f .firingFailed job.payload.effective.name fault ∧
      (n.fire s job).2 = some (.state (if fault.isNone then .completed else .failed)) := by
  intro fault
  -- Tracking the execution is all that the node does before the flow is looked up.
  let tracked : Node := { n with executions := n.executions.begin job.name }
  have hoffered : (Run.offered job.name job.payload).step (runner s) n =
      (n, .next (.accepted job.name job.payload)) := by
    simp [Run.step, runner, haside]
  have haccepted : (Run.accepted job.name job.payload).step (runner s) n =
      (tracked, .next (.ready (.firing job.name) job.payload.effective false)) := by
    simp [Run.step, runner, hlistener, tracked]
  have hfire : n.fire s job =
      (Run.ready (.firing job.name) job.payload.effective false).perform (runner s) tracked := by
    rw [fire, Run.perform, Run.rank]
    simp only [Run.finishWithin, hoffered, haccepted]
    rfl
  -- From there on the firing is a run like any other, and its execution has just begun.
  have hready := perform_ready (s := s) (n := tracked) hflow (.firing job.name)
  obtain ⟨htrace, hstate⟩ := close_begun (s := s) (n := n.engaged job.name f) rfl
    job.payload.effective.name fault
  rw [hfire, hready]
  refine ⟨?_, congrArg some hstate⟩
  calc _ = (n.engaged job.name f).trace ++ _ := htrace
    _ = _ := by simp [engaged, call, runRecord]

end Node

end FlowCadence
