import FlowCadence.Node.Laden
/-! # Firings that meet an unscheduling

A trigger may fire while its flow is being unscheduled.  Both go through stages, and the
stages of one may come between those of the other.  An unscheduling holds the lock of the
node from its first stage to its last.  A firing needs that lock to find out whether the node
leads and to look up its flow, but not when its execution begins or finishes.

* `Departure.perform_eq`  the stages of an unscheduling make it up -/

namespace FlowCadence.Node

/-- What an unscheduling still has to do. -/
inductive Departure where
  /-- Everything. -/
  | ahead
  /-- The flow has left the registry: its execution is to be forgotten. -/
  | struck
  /-- Its execution was forgotten: its trigger is to be removed. -/
  | forgotten
  deriving DecidableEq, Repr

namespace Departure

/-- The next stage of an unscheduling, and what it still has to do then. -/
def step (s : Setup) (uri : String) : Departure → Node → Node × Option Departure
  | .ahead, n => (n.strike uri, some .struck)
  | .struck, n => ({ n with executions := n.executions.forget uri }, some .forgotten)
  | .forgotten, n => (n.removeTrigger s uri, none)

/-- Whether the unscheduling holds the lock of the node. -/
def locks : Departure → Bool
  | .ahead => false
  | .struck | .forgotten => true

/-- All stages of an unscheduling without a break. -/
def perform (s : Setup) (uri : String) (n : Node) : Node :=
  let (n, _) := step s uri .ahead n
  let (n, _) := step s uri .struck n
  (step s uri .forgotten n).1

/-- With nothing in between the stages come to the whole. -/
theorem perform_eq (s : Setup) (uri : String) (n : Node) : perform s uri n = n.unschedule s uri :=
  rfl

end Departure

/-- Whether the next stage of a run needs the lock of the node. -/
def Duty.locks : Duty → Bool
  | .stage (.offered ..) | .stage (.ready ..) => true
  | _ => false

/-- A node on which a trigger has fired and its flow is to be unscheduled: what is left of
    the firing and of the unscheduling, if they are not over. -/
structure Encounter where
  node : Node
  firing : Option Duty
  departure : Option Departure

namespace Encounter

/-- What can happen next. -/
inductive Move where
  /-- The firing does its next stage. -/
  | fire
  /-- The unscheduling does its next stage. -/
  | depart
  /-- Others change the node. -/
  | meanwhile (change : Node → Node)

/-- A move, and how the collaborators answer while it is made. -/
structure Turn where
  replies : Replies
  move : Move

/-- The trigger has fired, and nothing has been done yet. -/
def start (uri : String) (payload : Payload) (n : Node) : Encounter :=
  ⟨n, some (.stage (.offered uri payload)), some .ahead⟩

/-- Whether the unscheduling holds the lock of the node. -/
def isLocked (e : Encounter) : Bool := e.departure.any Departure.locks

/-- The encounter after a move.  A firing that needs the lock waits while it is held. -/
def step (s : Setup) (uri : String) (e : Encounter) : Move → Encounter
  | .fire =>
    match e.firing with
    | none => e
    | some d =>
      if e.isLocked && d.locks then e
      else
        let (node, firing) := d.step s e.node
        { e with node, firing }
  | .depart =>
    match e.departure with
    | none => e
    | some d =>
      let (node, departure) := d.step s uri e.node
      { e with node, departure }
  | .meanwhile change => { e with node := change e.node }

/-- The encounter after turns. -/
def run (s : Setup) (uri : String) (e : Encounter) (turns : List Turn) : Encounter :=
  turns.foldl (fun e turn => e.step { s with replies := turn.replies } uri turn.move) e

/-- The firing and the unscheduling are over. -/
def isOver (e : Encounter) : Bool := e.firing.isNone && e.departure.isNone

end Encounter

end FlowCadence.Node
