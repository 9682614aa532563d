import FlowCadence.Node.Laden
import FlowCadence.Proofs.Node.Effect
/-! # Handing flows over

A node hands a flow to the orchestrator at one stage of a run and nowhere else.  Which flow
that is going to be is known before: of a job that is queued or a firing that is accepted,
it is the flow registered under the job's name, or the one attached to the job; once it has
been looked up it stays the same.

A node on standby refuses firings and leaves its registry and its queue alone, so a run that
was under way when the node stepped down goes on as it would have.

## Key results

* `handed_busy_step`: nothing but runs hands flows over
* `sameWork_busy_step`: what a node on standby leaves alone
* `duty_step`: what one stage of a run hands over and what it leaves due -/

namespace FlowCadence.Node

variable {s : Setup} {n m : Node}

/-- The flow that the orchestrator is to run. -/
@[simp] def Call.flow? : Call → Option Flow
  | .run f => some f
  | _ => none

/-- The flows that a node has handed to the orchestrator. -/
def handed (n : Node) : List Flow :=
  n.trace.filterMap fun
    | .call c => c.flow?
    | .alert _ => none

/-- The flow that a run hands over by its next stage. -/
def Duty.hands : Duty → Option Flow
  | .chosen _ h => some h.flow
  | .stage _ => none

/-- The flow that a run is going to hand over, now or later. -/
def Duty.due (n : Node) : Duty → Option Flow
  | .stage (.accepted _ payload) => n.flowFor payload.effective
  | .stage (.ready _ config _) => n.flowFor config
  | .chosen _ h => some h.flow
  | .stage (.offered ..) | .stage (.underway ..) | .stage (.returned ..) => none

/-! ### Only runs hand flows over -/

/-- A call hands a flow over if it is one to the orchestrator. -/
@[simp] theorem handed_call (c : Call) (n : Node) :
    (n.call c).handed = n.handed ++ c.flow?.toList := by
  cases c <;> simp [handed, call]

@[simp] theorem handed_alert (a : Alert) (n : Node) : (n.alert a).handed = n.handed := by
  simp [handed, alert]

@[simp] theorem handed_forward (notice : Notice) (uri : String) (n : Node) :
    (n.forward s notice uri).handed = n.handed := by
  rw [forward]
  split
  · dsimp only
    split <;> simp
  · rfl

@[simp] theorem handed_forwardAdded (uri : String) (n : Node) :
    (n.forwardAdded s uri).handed = n.handed :=
  handed_forward ..

@[simp] theorem handed_forwardRemoved (uri version : String) (n : Node) :
    (n.forwardRemoved s uri version).handed = n.handed :=
  handed_forward ..

/-- Listeners are told of a change, and no flow is run. -/
theorem handed_tell (change : Catalog.Change) (others : List String) (n : Node) :
    (others.foldl (fun n name => n.call (.tell (name, change))) n).handed = n.handed := by
  -- One listener after another.
  induction others generalizing n with
  | nil => rfl
  | cons name others ih =>
    rw [List.foldl_cons, ih]
    simp

/-- A trigger is installed, and nothing is run. -/
theorem handed_schedule (config : JobConfig) (listener : Bool) (n : Node) :
    (n.schedule s config listener).1.handed = n.handed := by
  -- To ask the engine is not to hand anything over.
  have hinstall (job : ScheduledJob) : (n.call (.install job)).handed = n.handed := by
    simp
  rw [schedule]
  split
  · rfl
  · rfl
  · dsimp only
    split
    · exact hinstall _
    · exact hinstall _

/-- A flow is registered and its trigger installed, and nothing is run yet. -/
theorem handed_register (f : Flow) (n : Node) : (n.register s f).1.handed = n.handed := by
  have hschedule : ((n.enrol f).schedule s (configOf s f) false).1.handed = n.handed :=
    handed_schedule _ _ (n.enrol f)
  rw [register]
  cases hm : (n.enrol f).schedule s (configOf s f) false with
  | mk m result =>
    rw [hm] at hschedule
    cases result with
    -- If the trigger could not be installed, an alert goes on record as well.
    | ok _ => exact hschedule
    | error failure => exact (handed_alert _ _).trans hschedule

/-- A flow that is added is registered or queued, and it is not handed over yet. -/
@[simp] theorem handed_addFlow (f : Flow) (n : Node) : (n.addFlow s f).handed = n.handed := by
  cases haside : n.aside s with
  | true => rw [addFlow_of_aside haside, handed_forwardAdded]
  | false =>
    cases hc : (configOf s f).hasSchedule with
    | false =>
      -- The flow is queued, and whoever takes up the job hands it over.
      rw [addFlow_of_unscheduled haside hc]
      rfl
    | true =>
      rw [addFlow_of_scheduled haside hc]
      -- Whether or not it is queued as well, it was registered.
      split
      · exact handed_register f n
      · exact handed_register f n

@[simp] theorem handed_add (spec : Spec) (n : Node) : (n.add s spec).handed = n.handed := by
  cases spec with
  | flow f => exact handed_addFlow f n
  | topology t => rfl

@[simp] theorem handed_unschedule (uri : String) (n : Node) :
    (n.unschedule s uri).handed = n.handed := by
  have hremove (m : Node) (hm : m.trace = n.trace) : (m.call (.remove uri)).handed = n.handed := by
    rw [handed_call, handed, hm]
    simp [handed]
  rw [unschedule, removeTrigger]
  -- The engine refuses, or there is a trigger to remove, or there is none.
  split
  · rw [handed_alert]
    exact hremove _ rfl
  · split
    · exact hremove _ rfl
    · rw [handed_alert]
      exact hremove _ rfl

@[simp] theorem handed_delete (uri version : String) (n : Node) :
    (n.delete s uri version).handed = n.handed := by
  rw [delete]
  split <;> simp

/-- Nothing is run when a flow is updated, since what is added is queued at most. -/
@[simp] theorem handed_update (spec : Spec) (n : Node) : (n.update s spec).handed = n.handed := by
  rw [update]
  split
  · rfl
  · split <;> simp

/-- Nothing is run when the schedule is restored. -/
theorem handed_restore (n : Node) : (n.restore s).handed = n.handed := by
  refine restore_keeps (P := fun m => m.handed = n.handed) rfl ?_ ?_ ?_
  · simp
  · simp
  · intro m spec hm
    rw [handed_add, hm]

/-- Nothing is run by a change of leadership. -/
theorem handed_lead (active : Bool) (n : Node) : (n.lead s active).handed = n.handed := by
  rw [lead]
  split
  · rfl
  · -- The node takes up what the catalog holds, or gives up what it has scheduled.
    split
    · exact handed_restore _
    · exact List.foldlRecOn (motive := fun m : Node => m.handed = n.handed) n.registry.toList _ rfl
        fun m hm entry _ => by rw [handed_delete, hm]

/-- The answer of the catalog is acted on at a later stage. -/
theorem handed_afterLookUp (kind : Notice.Kind) (uri : String) (n : Node)
    (answer : Except Fault (Option Spec)) :
    (Activity.afterLookUp kind uri n answer).1.handed = n.handed := by
  unfold Activity.afterLookUp
  split
  · rfl
  · split <;> simp
  · simp

/-- To ask the catalog runs nothing. -/
theorem handed_lookUp (kind : Notice.Kind) (uri : String) (n : Node) :
    (Activity.lookUp s kind uri n).1.handed = n.handed := by
  unfold Activity.lookUp
  split
  · simp
  · exact handed_afterLookUp kind uri n _

/-- No stage of an activity runs anything, whatever it does. -/
theorem handed_activity_step (a : Activity) (n : Node) : (a.step s n).1.handed = n.handed := by
  cases a with
  | notice m =>
    rw [Activity.step]
    split <;> simp
  | resolve m =>
    rw [Activity.step]
    split
    · exact handed_lookUp _ _ n
    · split
      · exact handed_lookUp _ _ n
      · exact handed_alert _ n
  | consult kind uri => exact handed_afterLookUp kind uri n _
  | enter spec => exact handed_add spec n
  | leave uri =>
    rw [Activity.step]
    dsimp only
    split <;> simp
  | put spec | delete uri => rfl
  | react change others =>
    cases change with
    | added spec => exact handed_add spec n
    | updated spec => exact handed_update spec n
    | deleted uri version => exact handed_delete uri version n
  | clear uri version others =>
    have hclear : (n.call (.clear uri)).handed = n.handed := by simp
    rw [Activity.step]
    split
    · exact hclear
    · exact (handed_alert _ _).trans hclear
  | tell change others => exact handed_tell change others n

/-- Whatever a node does apart from its runs, it hands no flow over. -/
theorem handed_busy_step (b : Busy) (move : Move) :
    (b.step s move).node.handed = b.node.handed := by
  cases move with
  | accept c =>
    cases c with
    | lead active => exact handed_lead active b.node
    | schedule config listener => exact handed_schedule config listener b.node
    | change c | notice m | put spec | delete uri => rfl
  -- A stage of the activity at that place, if there is one.
  | advance place =>
    rw [Busy.step]
    split
    · rfl
    · exact handed_activity_step _ _

/-! ### What a node on standby leaves alone -/

/-- Two nodes have the same flows registered and the same jobs queued. -/
structure SameWork (n m : Node) : Prop where
  registry : m.registry = n.registry
  queued : m.queued = n.queued

/-- No stage of an activity registers or queues anything on a node that stands aside. -/
theorem sameWork_activity_step (haside : n.aside s = true) (a : Activity) :
    SameWork n (a.step s n).1 := by
  obtain ⟨_, _, heq⟩ := activity_step_eq_of_aside haside a
  rw [heq]
  exact ⟨rfl, rfl⟩

/-- Whatever a node on standby does apart from its runs, it registers and queues nothing, as
    long as it does not lead afterwards. -/
theorem sameWork_busy_step {b : Busy} (haside : b.node.aside s = true) (move : Move)
    (hstays : (b.step s move).node.active = false) :
    SameWork b.node (b.step s move).node := by
  have hstandby : b.node.active = false := (aside_eq_true_iff.1 haside).1
  cases move with
  | accept c =>
    cases c with
    | lead active =>
      have hlead : (b.node.lead s active).active = false := hstays
      rw [active_lead] at hlead
      -- The node neither starts nor ceases to lead.
      have hnode : b.node.lead s active = b.node := by
        rw [lead, if_pos (hstandby.trans hlead.symm)]
      show SameWork b.node (b.node.lead s active)
      rw [hnode]
      exact ⟨rfl, rfl⟩
    | schedule config listener =>
      obtain ⟨jobs, trace, hnode⟩ := schedule_eq s config listener b.node
      show SameWork b.node (b.node.schedule s config listener).1
      rw [hnode]
      exact ⟨rfl, rfl⟩
    | change c | notice m | put spec | delete uri => exact ⟨rfl, rfl⟩
  | advance place =>
    rw [Busy.step]
    split
    · exact ⟨rfl, rfl⟩
    · exact sameWork_activity_step haside _

/-! ### One stage of a run -/

/-- Only the registry says which flow a job runs. -/
theorem flowFor_congr (h : m.registry = n.registry) (config : JobConfig) :
    m.flowFor config = n.flowFor config := by
  rw [flowFor, flowFor, h]

/-- So the registry says which flow is due, too. -/
theorem Duty.due_congr (h : m.registry = n.registry) (d : Duty) : d.due m = d.due n := by
  cases d with
  | chosen origin h => rfl
  -- Only a job that is accepted or ready to run is still to be looked up.
  | stage run =>
    cases run with
    | accepted name payload => exact flowFor_congr h _
    | ready origin config listener => exact flowFor_congr h _
    | offered name payload | underway origin h | returned origin result => rfl

/-- What a stage of a run does on a node that stands aside: it hands a flow over that was due,
    or the same flow is still due. -/
structure Carries (n : Node) (d : Duty) (m : Node) (rest : Option Duty) : Prop where
  active : m.active = n.active
  same : SameWork n m
  handed : m.handed = n.handed ++ d.hands.toList
  due : d.hands.toList ++ (rest.bind (Duty.due m)).toList = (d.due n).toList

/-- Of a run that is not about to be handed over, the same flow is due after the stage. -/
theorem Carries.of_stage {run : Execution.Run Handed} {rest : Option Duty}
    (h : m.active = n.active ∧ SameWork n m ∧ m.handed = n.handed)
    (hdue : rest.bind (Duty.due m) = (Duty.stage run).due n) : Carries n (.stage run) m rest where
  active := h.1
  same := h.2.1
  handed := by rw [h.2.2, Duty.hands, Option.toList_none, List.append_nil]
  due := by rw [hdue, Duty.hands, Option.toList_none, List.nil_append]

/-- The end of a run is an alert at most, and its execution is up to date. -/
theorem close_keeps (result : Except Failure Unit) (origin : Execution.Run.Origin) (n : Node) :
    let m := (Execution.Run.close (runner s) result origin n).1
    m.active = n.active ∧ SameWork n m ∧ m.handed = n.handed := by
  -- An alert changes none of the three.
  have halert (a : Alert) (m : Node)
      (h : m.active = n.active ∧ SameWork n m ∧ m.handed = n.handed) :
      (m.alert a).active = n.active ∧ SameWork n (m.alert a) ∧ (m.alert a).handed = n.handed :=
    ⟨h.1, ⟨h.2.1.registry, h.2.1.queued⟩, (handed_alert a m).trans h.2.2⟩
  cases origin with
  | requested => exact ⟨rfl, ⟨rfl, rfl⟩, rfl⟩
  | queued =>
    cases result with
    | ok _ => exact ⟨rfl, ⟨rfl, rfl⟩, rfl⟩
    | error failure => exact halert _ n ⟨rfl, ⟨rfl, rfl⟩, rfl⟩
  -- For a firing the tracker is brought up to date first, and that may fail as well.
  | firing name =>
    cases hfinish : n.executions.finish name (Execution.succeeded result) with
    | mk executions outcome =>
    simp only [Execution.Run.close, runner, hfinish]
    have hkept : { n with executions }.active = n.active ∧ SameWork n { n with executions } ∧
        { n with executions }.handed = n.handed :=
      ⟨rfl, ⟨rfl, rfl⟩, rfl⟩
    cases outcome.2 with
    | none =>
      cases result with
      | ok _ => exact hkept
      | error failure => exact halert _ _ hkept
    | some fault =>
      cases result with
      | ok _ => exact halert _ _ hkept
      | error failure => exact halert _ _ (halert _ _ hkept)

/-- A flow that comes back is reported at most. -/
theorem takeBack_keeps (h : Handed) (n : Node) :
    let m := (n.takeBack s h).1
    m.active = n.active ∧ SameWork n m ∧ m.handed = n.handed := by
  have hback : (n.takeBack s h).1 =
      if h.listener then n.call (.report h.job (s.replies.run n h.flow)) else n := by
    rw [takeBack]
    split <;> rfl
  rw [hback]
  -- The listener of the job is told, if it has one.
  split
  · exact ⟨rfl, ⟨rfl, rfl⟩, by simp⟩
  · exact ⟨rfl, ⟨rfl, rfl⟩, rfl⟩

/-- What is due is handed over, or it is still due after the stage. -/
theorem duty_step (haside : n.aside s = true) (d : Duty) :
    Carries n d (d.step s n).1 (d.step s n).2 := by
  have hunchanged : n.active = n.active ∧ SameWork n n ∧ n.handed = n.handed :=
    ⟨rfl, ⟨rfl, rfl⟩, rfl⟩
  cases d with
  -- The flow is handed over, and nothing is due after that.
  | chosen origin h =>
    constructor
    · rfl
    · exact ⟨rfl, rfl⟩
    · exact handed_call (.run h.flow) n
    · rfl
  | stage run =>
    cases run with
    | offered name payload =>
      -- A node that stands aside refuses the firing.
      have hrefused : Duty.step s (.stage (.offered name payload)) n = (n, none) := by
        simp [Duty.step, Execution.Run.step, runner, haside]
      rw [hrefused]
      exact .of_stage hunchanged rfl
    -- An execution begins, which concerns the tracker alone.
    | accepted name payload => exact .of_stage ⟨rfl, ⟨rfl, rfl⟩, rfl⟩ rfl
    | ready origin config listener =>
      -- The flow is found by the registry or with the job, or it is nowhere.
      cases hflow : n.flowFor config with
      | some flow =>
        have hfound : Duty.step s (.stage (.ready origin config listener)) n =
            (n, some (.chosen origin ⟨flow, config.name, listener⟩)) := by
          simp [Duty.step, handOver, hflow]
        rw [hfound]
        exact .of_stage hunchanged hflow.symm
      | none =>
        have hmissing : ∃ failure, Duty.step s (.stage (.ready origin config listener)) n =
            (n, some (.stage (.returned origin (.error failure)))) := by
          simp [Duty.step, handOver, hflow]
        obtain ⟨failure, hmissing⟩ := hmissing
        rw [hmissing]
        exact .of_stage hunchanged hflow.symm
    -- From here on nothing is due.
    | underway origin h => exact .of_stage (takeBack_keeps h n) rfl
    | returned origin result => exact .of_stage (close_keeps result origin n) rfl

end FlowCadence.Node
