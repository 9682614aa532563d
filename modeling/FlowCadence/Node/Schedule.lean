import FlowCadence.Execution.Run
import FlowCadence.Node.Basic
/-! # Scheduling and running flows

What a node does with flows that are added, changed or deleted, and when it starts
or ceases to lead.  A node that stands aside sends notices and changes nothing.
Each of these acts under the lock of the node, so nothing happens in between.

Whether a flow can be scheduled only shows when its trigger is installed; a flow
whose trigger cannot be installed does not stay registered.

A node runs a job by handing its flow to the orchestrator.  The flow registered
under the job's name counts; the flow attached to the job stands in for it, so that
a flow can run once without being registered. -/

namespace FlowCadence.Node

/-- A notice about a flow goes to the controller.  That it could not be sent is an
    alert. -/
def forward (s : Setup) (notice : Notice) (uri : String) (n : Node) : Node :=
  if s.clustered then
    let n := n.call (.send notice)
    match s.replies.send n notice with
    | none => n
    | some fault => n.alert (.notForwarded ⟨.forwarding, uri, fault⟩)
  else n

/-- The notice that a flow was added goes to the controller. -/
def forwardAdded (s : Setup) (uri : String) (n : Node) : Node :=
  n.forward s (.ofAdded (s.noticeId n) uri) uri

/-- The notice that a flow was removed goes to the controller. -/
def forwardRemoved (s : Setup) (uri version : String) (n : Node) : Node :=
  n.forward s (.ofRemoved (s.noticeId n) uri version) uri

/-- The trigger of a job, with the flow registered under the job's name as what it
    runs. -/
def triggerFor (config : JobConfig) (listener : Bool) (schedule : Cron.Schedule) (n : Node) :
    ScheduledJob :=
  ⟨config.name, schedule, ⟨config, listener, n.registry[config.name]?⟩, true⟩

/-- The trigger of a job is installed, which takes the place of one of that name. -/
def schedule (s : Setup) (config : JobConfig) (listener : Bool) (n : Node) :
    Node × Except Failure Unit :=
  match config.schedule with
  | .error fault => (n, .error ⟨.scheduling, config.name, fault⟩)
  | .ok none => (n, .error ⟨.scheduling, config.name,
      .validation ("job '" ++ config.name ++ "' has no schedule")⟩)
  | .ok (some schedule) =>
    let job := n.triggerFor config listener schedule
    let n := n.call (.install job)
    match s.replies.install n job with
    | none => ({ n with jobs := n.jobs.insert job.name job }, .ok ())
    | some fault => (n, .error ⟨.scheduling, config.name, fault⟩)

/-- The configuration of the job of a flow. -/
def configOf (s : Setup) (f : Flow) : JobConfig := (JobConfig.ofFlow s.base f).attach f

/-- A job is queued to run at once. -/
def enqueue (config : JobConfig) (n : Node) : Node := { n with queued := n.queued ++ [config] }

/-- The node with a flow in its registry. -/
def enrol (f : Flow) (n : Node) : Node := { n with registry := n.registry.insert f.uri.text f }

/-- The node without the flow of a uri in its registry. -/
def strike (uri : String) (n : Node) : Node := { n with registry := n.registry.erase uri }

/-- A flow is registered and its trigger installed.  The answer says whether that
    succeeded; if not, the flow does not stay registered. -/
def register (s : Setup) (f : Flow) (n : Node) : Node × Bool :=
  match (n.enrol f).schedule s (configOf s f) false with
  | (n, .ok _) => (n, true)
  | (n, .error failure) => ((n.strike f.uri.text).alert (.notScheduled failure), false)

/-- A flow is added: told to the controller, scheduled, or run once. -/
def addFlow (s : Setup) (f : Flow) (n : Node) : Node :=
  let config := configOf s f
  let dispatch := Dispatch.choose n.active s.clustered config.hasSchedule config.runsAtOnce
  if dispatch = .forward then n.forwardAdded s f.uri.text
  else
    let (n, good) := if dispatch.installs then n.register s f else (n, true)
    if good && dispatch.runsOnce then n.enqueue config else n

/-- A spec is added.  Only flows concern the scheduler. -/
def add (s : Setup) (spec : Spec) (n : Node) : Node :=
  match spec.flow? with
  | none => n
  | some f => n.addFlow s f

/-- The trigger of a flow is removed.  That it was missing or could not be removed is an alert. -/
def removeTrigger (s : Setup) (uri : String) (n : Node) : Node :=
  let n := n.call (.remove uri)
  match s.replies.remove n uri with
  | some fault => n.alert (.notUnscheduled ⟨.scheduling, uri, fault⟩)
  | none =>
    if n.jobs.contains uri then { n with jobs := n.jobs.erase uri }
    else n.alert .noTrigger

/-- A flow is no longer scheduled here: it leaves the registry first, its execution
    is forgotten, and its trigger is removed last. -/
def unschedule (s : Setup) (uri : String) (n : Node) : Node :=
  let n := { n.strike uri with executions := n.executions.forget uri }
  n.removeTrigger s uri

/-- A version of a flow is deleted: told to the controller, or unscheduled. -/
def delete (s : Setup) (uri version : String) (n : Node) : Node :=
  if n.aside s then n.forwardRemoved s uri version else n.unschedule s uri

/-- A spec has changed: told to the controller as removed and added, or unscheduled
    and added.  The catalog holds the new version already. -/
def update (s : Setup) (spec : Spec) (n : Node) : Node :=
  match spec.flow? with
  | none => n
  | some f =>
    if n.aside s then
      (n.forwardRemoved s f.uri.text f.version.text).forwardAdded s f.uri.text
    else (n.unschedule s f.uri.text).add s spec

/-- All specs of the catalog are added. -/
def restore (s : Setup) (n : Node) : Node :=
  if s.catalogued then
    let n := n.call .list
    match s.replies.list n with
    | .ok specs => specs.foldl (fun n spec => n.add s spec) n
    | .error fault => n.alert (.notListed fault)
  else n

/-- The node starts or ceases to lead.  A node that starts adds what the catalog
    holds.  A node that ceases deletes every flow it has scheduled, and as it stands
    aside by then in a cluster, that hands them all to the controller. -/
def lead (s : Setup) (active : Bool) (n : Node) : Node :=
  if n.active = active then n
  else if active then { n with active }.restore s
  else n.registry.toList.foldl
    (fun n entry => n.delete s entry.2.uri.text entry.2.version.text) { n with active }

/-- The firing of a trigger is asked to stop.  The answer says whether there is such
    a trigger. -/
def interrupt (s : Setup) (name : String) (n : Node) : Node × Except Failure Bool :=
  let n := n.call (.interrupt name)
  match s.replies.interrupt n name with
  | some fault => (n, .error ⟨.scheduling, name, fault⟩)
  | none =>
    if n.jobs.contains name then
      ({ n with executions := n.executions.interrupt name }, .ok true)
    else (n, .ok false)

/-! ## Running flows -/

/-- A flow that the orchestrator runs for a job. -/
structure Handed where
  flow : Flow
  /-- The name of the job. -/
  job : String
  /-- Somebody waits to be told how the run ends. -/
  listener : Bool
  deriving DecidableEq

/-- The flow that a job runs. -/
def flowFor (config : JobConfig) (n : Node) : Option Flow :=
  n.registry[config.name]?.or config.flow

/-- The flow of a job is handed to the orchestrator. -/
def handOver (config : JobConfig) (listener : Bool) (n : Node) : Node × Except Failure Handed :=
  match n.flowFor config with
  | some flow => (n.call (.run flow), .ok ⟨flow, config.name, listener⟩)
  | none => (n, .error ⟨.running, config.name,
      .notFound ("no flow spec registered for '" ++ config.name ++ "'")⟩)

/-- The orchestrator gives a flow back. -/
def takeBack (s : Setup) (h : Handed) (n : Node) : Node × Except Failure Unit :=
  let fault := s.replies.run n h.flow
  let n := if h.listener then n.call (.report h.job fault) else n
  match fault with
  | none => (n, .ok ())
  | some fault => (n, .error ⟨.running, h.job, fault⟩)

/-- A node as a runner of jobs: it accepts firings unless it stands aside. -/
def runner (s : Setup) : Execution.Runner Node Handed where
  accepts n := !n.aside s
  start config listener n := n.handOver config listener
  finish h n := n.takeBack s h
  executions n := n.executions
  setExecutions executions n := { n with executions }
  alert a n := n.alert a

/-- A trigger fires, and its run takes place without a break. -/
def fire (s : Setup) (job : ScheduledJob) (n : Node) : Node × Option Execution.Run.Outcome :=
  Execution.Run.perform (runner s) (.offered job.name job.payload) n

end FlowCadence.Node
