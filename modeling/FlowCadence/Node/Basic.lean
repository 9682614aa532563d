import FlowCadence.Alert
import FlowCadence.Catalog
import FlowCadence.Job.Config
import FlowCadence.Execution.Tracker
import FlowCadence.Job.Trigger
import FlowCadence.Leadership.LeaseStore
import FlowCadence.Notice.Basic
/-! # Nodes

A node keeps the flows of a catalog scheduled.  Its state is what it knows itself
(whether it leads, which flows it has scheduled, how their executions stand)
together with what it has made its collaborators hold: the triggers in the
scheduling engine, the catalog, and the runs that are queued.

Every call to a collaborator and every alert goes on record in `trace`, in the
order in which they happen.  How collaborators answer is not for the node to know:
`Replies` may be any functions of all that has happened so far. -/

namespace FlowCadence

/-- A call that a node makes to a collaborator. -/
inductive Node.Call where
  /-- The engine is to install a trigger. -/
  | install (job : ScheduledJob)
  /-- The engine is to remove a trigger. -/
  | remove (name : String)
  /-- The engine is to interrupt the firing of a trigger. -/
  | interrupt (name : String)
  /-- The orchestrator is to run a flow. -/
  | run (flow : Flow)
  /-- The catalog is to list its specs. -/
  | list
  /-- The catalog is to look up a spec. -/
  | lookUp (uri : String)
  /-- The catalog is to remove a spec. -/
  | clear (uri : String)
  /-- A notice is to be sent to the controller. -/
  | send (notice : Notice)
  /-- The listener of a run is told how it ended. -/
  | report (name : String) (fault : Option Fault)
  /-- A listener of the catalog is told of a change. -/
  | tell (delivery : Catalog.Delivery)
  /-- Something is asked of whoever grants leases. -/
  | ask (request : Lease.Request)
  /-- Notices are to be received, up to a number of them. -/
  | receive (limit : Nat)
  deriving DecidableEq

/-- What goes on record. -/
inductive Node.Event where
  | call (c : Node.Call)
  | alert (a : Alert)
  deriving DecidableEq

/-- A node and what it has made its collaborators hold. -/
structure Node where
  /-- Whether the node leads. -/
  active : Bool
  /-- The flows that the node has scheduled, by uri. -/
  registry : Table Flow
  /-- The triggers in the scheduling engine, by name. -/
  jobs : Table ScheduledJob
  executions : Execution.Tracker
  catalog : Catalog
  /-- The jobs that are queued to run at once. -/
  queued : List JobConfig
  /-- What has happened so far. -/
  trace : List Node.Event
  deriving DecidableEq

namespace Node

/-- How collaborators answer, which may hang on all that has happened. -/
structure Replies where
  install : Node → ScheduledJob → Option Fault
  remove : Node → String → Option Fault
  interrupt : Node → String → Option Fault
  send : Node → Notice → Option Fault
  run : Node → Flow → Option Fault
  list : Node → Except Fault (List Spec)
  lookUp : Node → String → Except Fault (Option Spec)
  clear : Node → String → Option Fault

/-- The answers of collaborators that never fail, from a catalog that holds what
    the node's own does. -/
def Replies.reliable : Replies where
  install _ _ := none
  remove _ _ := none
  interrupt _ _ := none
  send _ _ := none
  run _ _ := none
  list n := .ok n.catalog.list
  lookUp n uri := .ok (n.catalog.get? uri)
  clear _ _ := none

/-- What a node is set up with. -/
structure Setup where
  /-- Whether there is a controller to send notices to. -/
  clustered : Bool
  /-- The properties that every job starts from. -/
  base : Properties
  /-- Whether there is a catalog. -/
  catalogued : Bool
  replies : Replies
  /-- The identifier of the next notice. -/
  noticeId : Node → Identifier

/-- A node at its start: on standby, with nothing scheduled. -/
def initial : Node := ⟨false, ∅, ∅, .empty, .empty, [], []⟩

/-- The node after a call has gone on record. -/
def call (n : Node) (c : Call) : Node := { n with trace := n.trace ++ [.call c] }

/-- The node after an alert has gone on record. -/
def alert (n : Node) (a : Alert) : Node := { n with trace := n.trace ++ [.alert a] }

/-! Records touch nothing but the trace. -/

@[simp] theorem call_active (n : Node) (c : Call) : (n.call c).active = n.active := rfl

@[simp] theorem call_registry (n : Node) (c : Call) : (n.call c).registry = n.registry := rfl

@[simp] theorem call_jobs (n : Node) (c : Call) : (n.call c).jobs = n.jobs := rfl

@[simp] theorem call_catalog (n : Node) (c : Call) : (n.call c).catalog = n.catalog := rfl

@[simp] theorem alert_active (n : Node) (a : Alert) : (n.alert a).active = n.active := rfl

@[simp] theorem alert_registry (n : Node) (a : Alert) : (n.alert a).registry = n.registry := rfl

@[simp] theorem alert_jobs (n : Node) (a : Alert) : (n.alert a).jobs = n.jobs := rfl

@[simp] theorem alert_catalog (n : Node) (a : Alert) : (n.alert a).catalog = n.catalog := rfl

/-- Whether the node leaves its work to the controller. -/
def aside (s : Setup) (n : Node) : Bool := standsAside n.active s.clustered

/-- A node that leads does its work itself. -/
theorem aside_of_active {s : Setup} {n : Node} (h : n.active = true) : n.aside s = false := by
  rw [aside, h]
  rfl

/-- A node stands aside on standby in a cluster. -/
theorem aside_eq_true_iff {s : Setup} {n : Node} :
    n.aside s = true ↔ n.active = false ∧ s.clustered = true := by
  rw [aside, standsAside, Bool.and_eq_true, Bool.not_eq_true']

/-- Apart from the setup, that depends on the flag alone. -/
theorem aside_congr {s : Setup} {m n : Node} (h : m.active = n.active) :
    m.aside s = n.aside s := by
  rw [aside, aside, h]

/-- The uris of the flows that the node has scheduled, in ascending order. -/
def scheduled (n : Node) : List String := n.registry.keys

/-- The names of the triggers in the engine, in ascending order. -/
def installed (n : Node) : List String := n.jobs.keys

end Node

end FlowCadence
