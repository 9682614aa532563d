import FlowCadence.Node.Busy
import FlowCadence.Node.Schedule
/-! # Laden nodes

A busy node may also have runs under way: firings of its triggers, and jobs that were
queued to run at once.  A run goes through stages, and the node may do anything else
between two of them.

To look up the flow of a run and to hand it to the orchestrator are two stages here, since
others may act in between; with nothing in between they are the one step of the run
(`Duty.step_step`).

Queued jobs get their workers in any order and any number of them at a time, which covers
pools of every size. -/

namespace FlowCadence.Node

/-- A run at one of its stages. -/
inductive Duty where
  | stage (run : Execution.Run Handed)
  /-- The flow of the run was looked up: about to hand it to the orchestrator. -/
  | chosen (origin : Execution.Run.Origin) (h : Handed)

/-- The next stage of a run, and what remains of it. -/
def Duty.step (s : Setup) : Duty → Node → Node × Option Duty
  | .stage (.ready origin config listener), n =>
    match (n.handOver config listener).2 with
    | .ok h => (n, some (.chosen origin h))
    | .error failure => (n, some (.stage (.returned origin (.error failure))))
  | .chosen origin h, n => (n.call (.run h.flow), some (.stage (.underway origin h)))
  | .stage run, n =>
    match run.step (runner s) n with
    | (n, .next run) => (n, some (.stage run))
    | (n, .done _) => (n, none)

/-- With nothing in between, the two stages make up the start of a run. -/
theorem Duty.step_step (s : Setup) (n : Node) (origin : Execution.Run.Origin) (config : JobConfig)
    (listener : Bool) :
    let (first, between) := Duty.step s (.stage (.ready origin config listener)) n
    (match between with
      | some (.chosen origin h) => Duty.step s (.chosen origin h) first
      | rest => (first, rest)) =
    match Execution.Run.step (runner s) (.ready origin config listener) n with
    | (n, .next run) => (n, some (.stage run))
    | (n, .done _) => (n, none) := by
  cases hflow : n.flowFor config with
  | some flow => simp [Duty.step, Execution.Run.step, runner, handOver, hflow]
  | none => simp [Duty.step, Execution.Run.step, runner, handOver, hflow]

/-- A busy node with the runs that are under way. -/
structure Laden where
  busy : Busy
  runs : List Duty

namespace Laden

/-- The node itself. -/
def node (b : Laden) : Node := b.busy.node

/-- The laden node with another state of the node itself. -/
def setNode (b : Laden) (n : Node) : Laden := { b with busy := { b.busy with node := n } }

/-- What can happen next. -/
inductive Move where
  /-- A command is taken up, or an activity does its next stage. -/
  | work (move : Node.Move)
  /-- A trigger fires. -/
  | fire (job : ScheduledJob)
  /-- The queued job at this place gets a worker. -/
  | dispatch (place : Nat)
  /-- The run at this place does its next stage. -/
  | proceed (place : Nat)

/-- A move, and how the collaborators answer while it is made. -/
structure Turn where
  replies : Replies
  move : Move

/-- A node at its start, with nothing under way. -/
def start : Laden := ⟨.start, []⟩

/-- The laden node after a move. -/
def step (s : Setup) (b : Laden) : Move → Laden
  | .work move => { b with busy := b.busy.step s move }
  | .fire job => { b with runs := b.runs ++ [.stage (.offered job.name job.payload)] }
  | .dispatch place =>
    match b.node.queued[place]? with
    | none => b
    | some config =>
      { b.setNode { b.node with queued := b.node.queued.eraseIdx place } with
        runs := b.runs ++ [.stage (.ready .queued config false)] }
  | .proceed place =>
    match b.runs[place]? with
    | none => b
    | some d =>
      let (n, rest) := d.step s b.node
      { b.setNode n with runs := b.runs.take place ++ rest.toList ++ b.runs.drop (place + 1) }

/-- The laden node after turns. -/
def run (s : Setup) (b : Laden) (turns : List Turn) : Laden :=
  turns.foldl (fun b turn => b.step { s with replies := turn.replies } turn.move) b

end Laden

end FlowCadence.Node
