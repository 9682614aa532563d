import FlowCadence.Node.Laden
/-! # Chores

What a node does apart from starting or ceasing to lead, one step at a time: an operation
under the lock of the node, or a stage of an activity or of a run.

Any activity and any run may do any of its stages at any time here, and the catalog may be
written to by the other nodes that share it.  So a state that a node can be found in arises
from chores and from changes of leadership (`arises_run`), and what holds of all states that
arise holds of it. -/

namespace FlowCadence.Node

/-- What a node does apart from starting or ceasing to lead. -/
inductive Chore where
  /-- A stage of an activity. -/
  | stage (a : Activity)
  /-- The trigger of a job is installed. -/
  | schedule (config : JobConfig) (listener : Bool)
  /-- A stage of a run. -/
  | duty (d : Duty)
  /-- The queued job at this place gets a worker. -/
  | take (place : Nat)
  /-- The firing of a trigger is asked to stop. -/
  | interrupt (name : String)
  /-- Other nodes have written to the catalog. -/
  | elsewhere (catalog : Catalog)

/-- The node after a chore. -/
def Chore.act (s : Setup) (n : Node) : Chore → Node
  | .stage a => (a.step s n).1
  | .schedule config listener => (n.schedule s config listener).1
  | .duty d => (d.step s n).1
  | .take place => { n with queued := n.queued.eraseIdx place }
  | .interrupt name => (n.interrupt s name).1
  | .elsewhere catalog => { n with catalog }

/-- A node may come to this state after its start.  How the collaborators answer may change
    from one step to the next. -/
inductive Arises (s : Setup) : Node → Prop where
  | initial : Arises s .initial
  | lead {n : Node} (replies : Replies) (active : Bool) (h : Arises s n) :
    Arises s (n.lead { s with replies } active)
  | chore {n : Node} (replies : Replies) (c : Chore) (h : Arises s n) :
    Arises s (c.act { s with replies } n)

namespace Arises

variable {s : Setup}

/-- A move of a busy node leads from a state that can arise to another one. -/
theorem busy_step {b : Busy} (h : Arises s b.node) (replies : Replies) (move : Move) :
    Arises s (b.step { s with replies } move).node := by
  cases move with
  | accept c =>
    cases c with
    | lead active => exact .lead replies active h
    | schedule config listener => exact .chore replies (.schedule config listener) h
    | change _ | notice _ | put _ | delete _ => exact h
  | advance place =>
    rw [Busy.step]
    split
    · exact h
    · next a _ => exact .chore replies (.stage a) h

/-- So does a move of a node that has runs under way. -/
theorem laden_step {b : Laden} (h : Arises s b.node) (replies : Replies) (move : Laden.Move) :
    Arises s (b.step { s with replies } move).node := by
  cases move with
  | work move => exact busy_step h replies move
  | fire job => exact h
  | dispatch place =>
    rw [Laden.step]
    split
    · exact h
    · exact .chore replies (.take place) h
  | proceed place =>
    rw [Laden.step]
    split
    · exact h
    · next d _ => exact .chore replies (.duty d) h

end Arises

/-- Every state of a laden node arises. -/
theorem arises_run (s : Setup) (turns : List Laden.Turn) :
    Arises s (Laden.start.run s turns).node :=
  List.foldlRecOn (motive := fun b : Laden => Arises s b.node) turns _ .initial
    fun _ h turn _ => h.laden_step turn.replies turn.move

end FlowCadence.Node
