import FlowCadence.Node.Activity
/-! # What scheduling does to a node

Equations for the registry and the triggers of a node after each of its operations.
What is proved about runs of a node rests on these alone, and none of the
operations is opened again.

## Key results

* `schedule_cases`, `register_cases`: a trigger is installed, or nothing has changed in the end
* `addFlow_of_aside`, `addFlow_of_unscheduled`, `addFlow_of_scheduled`: the ways of an added flow
* `addFlow_of_serves`: an added flow where the engine serves every call
* `registry_unschedule`, `jobs_unschedule`: a flow goes from the registry, and its trigger with it
* `update_of_aside`, `add_eq_of_aside`: a node that stands aside tells the others, and no more
* `Activity.outcome_step`: what a stage of an activity may come to
* `active_activity_step`, `active_lead`: only a change of leadership sets the flag -/

namespace FlowCadence.Node

/-- The engine does what it is asked to. -/
structure Replies.EngineServes (r : Replies) : Prop where
  install : ∀ n job, r.install n job = none
  remove : ∀ n name, r.remove n name = none

/-- The catalog answers with what the node's own holds. -/
structure Replies.CatalogServes (r : Replies) : Prop where
  list : ∀ n, r.list n = .ok n.catalog.list
  lookUp : ∀ n uri, r.lookUp n uri = .ok (n.catalog.get? uri)
  clear : ∀ n uri, r.clear n uri = none

/-- A reliable engine does what it is asked to. -/
theorem Replies.reliable_engineServes : Replies.reliable.EngineServes where
  install _ _ := rfl
  remove _ _ := rfl

/-- A reliable catalog answers with what the node's own holds. -/
theorem Replies.reliable_catalogServes : Replies.reliable.CatalogServes where
  list _ := rfl
  lookUp _ _ := rfl
  clear _ _ := rfl

/-- The flow has a schedule that can be used: the properties of the node, with those
    of the flow over them, hold an expression that is not blank and that parses. -/
def Setup.Schedules (s : Setup) (f : Flow) (sch : Cron.Schedule) : Prop :=
  ∃ e, (s.base.overlay f.properties)[JobConfig.scheduleKey]? = some e ∧
    Text.isBlank e = false ∧ Cron.Schedule.parse e = .ok sch

variable {s : Setup} {n : Node}

/-- The schedule that a job is given is the one of the node's and the flow's properties together. -/
theorem schedule_configOf_iff (s : Setup) (f : Flow) (sch : Cron.Schedule) :
    (configOf s f).schedule = .ok (some sch) ↔ s.Schedules f sch := by
  rw [JobConfig.schedule_eq_ok_some_iff, configOf, JobConfig.get?_attach,
    JobConfig.get?_scheduleKey_ofFlow]
  exact Iff.rfl

/-- A flow has one schedule at most. -/
theorem Setup.Schedules.unique {f : Flow} {sch sch' : Cron.Schedule} (h : s.Schedules f sch)
    (h' : s.Schedules f sch') : sch = sch' := by
  -- Both are read from one expression.
  rw [← schedule_configOf_iff] at h h'
  rw [h] at h'
  simpa using h'

/-- Whether a flow has a schedule that can be used is a matter of reading it. -/
instance (s : Setup) (f : Flow) : Decidable (∃ sch, s.Schedules f sch) :=
  match h : (configOf s f).schedule with
  | .ok (some sch) => .isTrue ⟨sch, (schedule_configOf_iff s f sch).1 h⟩
  -- A schedule that cannot be read cannot be used.
  | .ok none | .error _ => .isFalse fun ⟨sch, hsch⟩ => by
    rw [(schedule_configOf_iff s f sch).2 hsch] at h
    cases h

/-- A node of a cluster with a catalog and without properties of its own. -/
def Setup.plain (replies : Replies) : Setup := ⟨true, ∅, true, replies, fun _ => .zero⟩

/-- A version of a flow with an expression for its schedule and no other property. -/
def timed (uri version : Label) (expression : String) : Flow :=
  ⟨uri, version, none, (∅ : Properties).insert JobConfig.scheduleKey expression⟩

/-! ### Sending notices and telling listeners -/

/-- Sending a notice touches nothing but the trace. -/
theorem forward_eq (s : Setup) (notice : Notice) (uri : String) (n : Node) :
    ∃ trace, n.forward s notice uri = { n with trace } := by
  rw [forward]
  split
  · dsimp only
    split <;> exact ⟨_, rfl⟩
  · exact ⟨_, rfl⟩

/-- Telling the others that a flow was added touches the trace alone. -/
theorem forwardAdded_eq (s : Setup) (uri : String) (n : Node) :
    ∃ trace, n.forwardAdded s uri = { n with trace } :=
  forward_eq ..

/-- Nor does telling them that one was removed touch anything else. -/
theorem forwardRemoved_eq (s : Setup) (uri version : String) (n : Node) :
    ∃ trace, n.forwardRemoved s uri version = { n with trace } :=
  forward_eq ..

/-- Telling listeners touches nothing but the trace. -/
theorem tell_eq (change : Catalog.Change) (others : List String) (n : Node) :
    ∃ trace, others.foldl (fun n name => n.call (.tell (name, change))) n = { n with trace } := by
  induction others generalizing n with
  | nil => exact ⟨n.trace, rfl⟩
  -- Telling one listener leaves a longer trace, and the rest follow from there.
  | cons name others ih =>
    obtain ⟨trace, h⟩ := ih (n.call (.tell (name, change)))
    exact ⟨trace, h⟩

/-! ### Installing triggers -/

/-- Installing a trigger, or failing to, touches the triggers and the trace alone. -/
theorem schedule_eq (s : Setup) (config : JobConfig) (listener : Bool) (n : Node) :
    ∃ jobs trace, (n.schedule s config listener).1 = { n with jobs, trace } := by
  rw [schedule]
  split
  -- The schedule cannot be parsed, or there is none, or the engine is asked.
  · exact ⟨_, _, rfl⟩
  · exact ⟨_, _, rfl⟩
  · dsimp only
    split <;> exact ⟨_, _, rfl⟩

/-- A trigger is installed for a schedule that can be used, or the triggers stay
    as they are, since there is no such schedule or the engine refused. -/
theorem schedule_cases (s : Setup) (config : JobConfig) (listener : Bool) (n : Node) :
    ((n.schedule s config listener).2 = .ok () ∧
      ∃ sch, config.schedule = .ok (some sch) ∧
        (n.schedule s config listener).1.jobs =
          n.jobs.insert config.name (n.triggerFor config listener sch)) ∨
    ((∃ failure, (n.schedule s config listener).2 = .error failure) ∧
      (∀ sch, config.schedule = .ok (some sch) →
        let job := n.triggerFor config listener sch
        s.replies.install (n.call (.install job)) job ≠ none) ∧
      (n.schedule s config listener).1.jobs = n.jobs) := by
  -- Without a schedule that can be used the engine is not asked.
  cases hc : config.schedule with
  | error fault =>
    right
    simp [schedule, hc]
  | ok o =>
    cases o with
    | none =>
      right
      simp [schedule, hc]
    | some sch =>
      -- The engine is asked, and it serves the call or refuses.
      let job := n.triggerFor config listener sch
      cases hr : s.replies.install (n.call (.install job)) job with
      | none =>
        left
        simp only [schedule, hc, job] at hr ⊢
        rw [hr]
        exact ⟨rfl, sch, rfl, rfl⟩
      | some fault =>
        right
        simp only [schedule, hc, job] at hr ⊢
        rw [hr]
        refine ⟨⟨_, rfl⟩, ?_, rfl⟩
        intro sch' heq
        cases heq
        simp [hr]

/-- The trigger that a flow gets for a schedule. -/
def triggerOf (s : Setup) (f : Flow) (sch : Cron.Schedule) : ScheduledJob :=
  ⟨f.uri.text, sch, ⟨configOf s f, false, some f⟩, true⟩

/-- A job is named by the uri of its flow. -/
@[simp] theorem name_configOf (s : Setup) (f : Flow) : (configOf s f).name = f.uri.text := by
  simp [configOf]

/-- The job of a flow is named by its uri, so what its trigger runs is that flow. -/
theorem triggerFor_enrol (s : Setup) (f : Flow) (sch : Cron.Schedule) (n : Node) :
    (n.enrol f).triggerFor (configOf s f) false sch = triggerOf s f sch := by
  simp [triggerFor, triggerOf, enrol]

/-! ### Registering flows -/

/-- Registering a flow touches the registry, the triggers and the trace alone. -/
theorem register_eq (s : Setup) (f : Flow) (n : Node) :
    ∃ registry jobs trace, (n.register s f).1 = { n with registry, jobs, trace } := by
  -- What is left of the node by the attempt to install its trigger.
  obtain ⟨jobs, trace, h⟩ := schedule_eq s (configOf s f) false (n.enrol f)
  rw [register]
  cases hm : (n.enrol f).schedule s (configOf s f) false with
  | mk m result =>
    rw [hm] at h
    subst h
    cases result with
    | ok _ => exact ⟨_, _, _, rfl⟩
    | error failure => exact ⟨_, _, _, rfl⟩

/-- A flow is registered together with its trigger, or neither: then it has left
    the registry, and the triggers are as they were. -/
theorem register_cases (s : Setup) (f : Flow) (n : Node) :
    ((n.register s f).2 = true ∧
      ∃ sch, (configOf s f).schedule = .ok (some sch) ∧
        (n.register s f).1.registry = n.registry.insert f.uri.text f ∧
        (n.register s f).1.jobs = n.jobs.insert f.uri.text (triggerOf s f sch)) ∨
    ((n.register s f).2 = false ∧
      (s.replies.EngineServes → ∀ sch, (configOf s f).schedule ≠ .ok (some sch)) ∧
      (n.register s f).1.registry = n.registry.erase f.uri.text ∧
      (n.register s f).1.jobs = n.jobs) := by
  -- The flow is in the registry while its trigger is being installed.
  have hreg : ((n.enrol f).schedule s (configOf s f) false).1.registry = (n.enrol f).registry := by
    obtain ⟨_, _, h⟩ := schedule_eq s (configOf s f) false (n.enrol f)
    rw [h]
  have hcases := schedule_cases s (configOf s f) false (n.enrol f)
  simp only [triggerFor_enrol, name_configOf] at hcases
  rw [register]
  cases hm : (n.enrol f).schedule s (configOf s f) false with
  | mk m result =>
    rw [hm] at hreg hcases
    -- The trigger was installed, or it was not and the registration is taken back.
    rcases hcases with ⟨rfl, sch, hsch, hjobs⟩ | ⟨⟨failure, rfl⟩, hrefused, hjobs⟩
    · left
      exact ⟨rfl, sch, hsch, hreg, hjobs⟩
    · right
      refine ⟨rfl, ?_, ?_, hjobs⟩
      · intro hs sch hsch
        exact hrefused sch hsch (hs.install _ _)
      -- To take back what was entered is to erase it, whatever was there before.
      · show m.registry.erase f.uri.text = n.registry.erase f.uri.text
        rw [show m.registry = n.registry.insert f.uri.text f from hreg, Table.erase_insert]

/-! ### Adding flows -/

variable {f : Flow}

/-- A node that stands aside tells the others of an added flow. -/
theorem addFlow_of_aside (h : n.aside s = true) : n.addFlow s f = n.forwardAdded s f.uri.text := by
  rw [addFlow]
  exact if_pos (Dispatch.choose_eq_forward_iff.2 h)

/-- A node that does its work itself registers the flow or queues it, as the schedule has it. -/
theorem addFlow_of_here (h : n.aside s = false) :
    n.addFlow s f =
      if (configOf s f).hasSchedule then
        if (n.register s f).2 && (configOf s f).runsAtOnce
        then (n.register s f).1.enqueue (configOf s f) else (n.register s f).1
      else n.enqueue (configOf s f) := by
  -- As the node does not stand aside, it does not forward.
  have hne : Dispatch.choose n.active s.clustered (configOf s f).hasSchedule
      (configOf s f).runsAtOnce ≠ .forward :=
    fun heq => absurd (Dispatch.choose_eq_forward_iff.1 heq) (ne_true_of_eq_false h)
  simp only [addFlow, if_neg hne, Dispatch.installs_choose h, Dispatch.runsOnce_choose h]
  cases hc : (configOf s f).hasSchedule <;> simp

/-- A flow without a schedule is queued for a run. -/
theorem addFlow_of_unscheduled (h : n.aside s = false) (hc : (configOf s f).hasSchedule = false) :
    n.addFlow s f = n.enqueue (configOf s f) := by
  rw [addFlow_of_here h, hc]
  rfl

/-- A flow with a schedule is registered, and it runs at once as well where it asks
    for that and its trigger could be installed. -/
theorem addFlow_of_scheduled (h : n.aside s = false) (hc : (configOf s f).hasSchedule = true) :
    n.addFlow s f =
      if (n.register s f).2 && (configOf s f).runsAtOnce
      then (n.register s f).1.enqueue (configOf s f) else (n.register s f).1 := by
  rw [addFlow_of_here h, if_pos hc]

/-- An added flow touches registry, triggers, queue and trace, and nothing else. -/
theorem addFlow_eq (s : Setup) (f : Flow) (n : Node) :
    ∃ registry jobs queued trace, n.addFlow s f = { n with registry, jobs, queued, trace } := by
  -- Each of the ways of an added flow touches some of the four.
  cases h : n.aside s with
  | true =>
    obtain ⟨_, heq⟩ := forwardAdded_eq s f.uri.text n
    rw [addFlow_of_aside h, heq]
    exact ⟨_, _, _, _, rfl⟩
  | false =>
    cases hc : (configOf s f).hasSchedule with
    | false =>
      rw [addFlow_of_unscheduled h hc]
      exact ⟨_, _, _, _, rfl⟩
    | true =>
      obtain ⟨_, _, _, heq⟩ := register_eq s f n
      rw [addFlow_of_scheduled h hc, heq]
      split <;> exact ⟨_, _, _, _, rfl⟩

/-- Whether the flow is queued as well makes no difference to registry and triggers. -/
theorem addFlow_of_scheduled_tables (h : n.aside s = false)
    (hc : (configOf s f).hasSchedule = true) :
    (n.addFlow s f).registry = (n.register s f).1.registry ∧
      (n.addFlow s f).jobs = (n.register s f).1.jobs := by
  rw [addFlow_of_scheduled h hc]
  split <;> exact ⟨rfl, rfl⟩

/-- Adding a flow leaves registry and triggers alone, or the flow gets a place in
    both, or it has left the registry while the triggers are as they were. -/
theorem addFlow_cases (s : Setup) (f : Flow) (n : Node) :
    ((n.addFlow s f).registry = n.registry ∧ (n.addFlow s f).jobs = n.jobs) ∨
    (∃ sch, (configOf s f).schedule = .ok (some sch) ∧
      (n.addFlow s f).registry = n.registry.insert f.uri.text f ∧
      (n.addFlow s f).jobs = n.jobs.insert f.uri.text (triggerOf s f sch)) ∨
    ((n.addFlow s f).registry = n.registry.erase f.uri.text ∧ (n.addFlow s f).jobs = n.jobs) := by
  cases h : n.aside s with
  | true =>
    -- The flow is forwarded.
    left
    obtain ⟨_, heq⟩ := forwardAdded_eq s f.uri.text n
    rw [addFlow_of_aside h, heq]
    exact ⟨rfl, rfl⟩
  | false =>
    cases hc : (configOf s f).hasSchedule with
    | false =>
      -- It is queued.
      left
      rw [addFlow_of_unscheduled h hc]
      exact ⟨rfl, rfl⟩
    | true =>
      -- It has a schedule, and it is registered with its trigger or not.
      right
      obtain ⟨hreg, hjobs⟩ := addFlow_of_scheduled_tables h hc
      rw [hreg, hjobs]
      rcases register_cases s f n with ⟨_, hdone⟩ | ⟨_, _, hundone⟩
      · exact .inl hdone
      · exact .inr hundone

/-- An added flow concerns no other uri. -/
theorem addFlow_of_ne {a : String} (h : f.uri.text ≠ a) :
    (n.addFlow s f).registry[a]? = n.registry[a]? ∧ (n.addFlow s f).jobs[a]? = n.jobs[a]? := by
  rcases addFlow_cases s f n with ⟨hr, hj⟩ | ⟨sch, _, hr, hj⟩ | ⟨hr, hj⟩
  · rw [hr, hj]
    exact ⟨rfl, rfl⟩
  · rw [hr, hj, Table.lookUp_insert, Table.lookUp_insert, if_neg h, if_neg h]
    exact ⟨rfl, rfl⟩
  · rw [hr, hj, Table.lookUp_erase, if_neg h]
    exact ⟨rfl, rfl⟩

/-- Nor does an added topology. -/
theorem add_of_ne {spec : Spec} {uri : String} (h : spec.uri ≠ uri) :
    (n.add s spec).registry[uri]? = n.registry[uri]? ∧
      (n.add s spec).jobs[uri]? = n.jobs[uri]? := by
  cases spec with
  | flow f => exact addFlow_of_ne h
  | topology t => exact ⟨rfl, rfl⟩

/-- What an engine that serves every call makes of an added flow. -/
theorem addFlow_of_serves (hs : s.replies.EngineServes) (h : n.aside s = false) :
    match (configOf s f).schedule with
    | .ok (some sch) => (n.addFlow s f).registry = n.registry.insert f.uri.text f ∧
        (n.addFlow s f).jobs = n.jobs.insert f.uri.text (triggerOf s f sch)
    | .ok none => (n.addFlow s f).registry = n.registry ∧ (n.addFlow s f).jobs = n.jobs
    | .error _ => (n.addFlow s f).registry = n.registry.erase f.uri.text ∧
        (n.addFlow s f).jobs = n.jobs := by
  cases hc : (configOf s f).hasSchedule with
  -- There is no schedule, so the flow is queued and the tables stay.
  | false =>
    rw [((configOf s f).schedule_eq_ok_none_iff).2 hc, addFlow_of_unscheduled h hc]
    exact ⟨rfl, rfl⟩
  | true =>
    obtain ⟨hreg, hjobs⟩ := addFlow_of_scheduled_tables h hc
    rw [hreg, hjobs]
    -- The engine serves the call, so the flow is registered if its schedule can be used.
    rcases register_cases s f n with ⟨_, sch, hsch, hdone⟩ | ⟨_, hno, hundone⟩
    · rw [hsch]
      exact hdone
    · split
      · next sch hsch => exact absurd hsch (hno hs sch)
      · next hnone =>
        rw [JobConfig.schedule_eq_ok_none_iff, hc] at hnone
        cases hnone
      · exact hundone

/-- An engine that serves every call has the trigger of a flow whose schedule can be used. -/
theorem addFlow_of_schedules (hs : s.replies.EngineServes) (h : n.aside s = false)
    {sch : Cron.Schedule} (hsch : s.Schedules f sch) :
    (n.addFlow s f).registry = n.registry.insert f.uri.text f ∧
      (n.addFlow s f).jobs = n.jobs.insert f.uri.text (triggerOf s f sch) := by
  have hadd := addFlow_of_serves hs h (f := f)
  rw [(schedule_configOf_iff s f sch).2 hsch] at hadd
  exact hadd

/-- A flow without a schedule that can be used leaves the triggers as they are. -/
theorem addFlow_of_not_schedules (hs : s.replies.EngineServes) (h : n.aside s = false)
    (hno : ∀ sch, ¬ s.Schedules f sch) :
    ((n.addFlow s f).registry = n.registry ∨
      (n.addFlow s f).registry = n.registry.erase f.uri.text) ∧
      (n.addFlow s f).jobs = n.jobs := by
  have hadd := addFlow_of_serves hs h (f := f)
  -- The schedule can be used, or there is none, or it cannot be parsed.
  split at hadd
  · next sch hsch => exact absurd ((schedule_configOf_iff s f sch).1 hsch) (hno sch)
  · exact ⟨.inl hadd.1, hadd.2⟩
  · exact ⟨.inr hadd.1, hadd.2⟩

/-! ### Removing flows -/

/-- Removing a trigger concerns nothing but the triggers. -/
theorem removeTrigger_eq (s : Setup) (uri : String) (n : Node) :
    ∃ jobs trace, n.removeTrigger s uri = { n with jobs, trace } := by
  rw [removeTrigger]
  -- The engine refuses, or there is a trigger to remove, or there is none.
  split
  · exact ⟨_, _, rfl⟩
  · split <;> exact ⟨_, _, rfl⟩

/-- A trigger that is removed is gone, unless the engine refused. -/
theorem jobs_removeTrigger_cases (s : Setup) (uri : String) (n : Node) :
    (n.removeTrigger s uri).jobs = n.jobs.erase uri ∨
      (¬ s.replies.EngineServes ∧ (n.removeTrigger s uri).jobs = n.jobs) := by
  rw [removeTrigger]
  split
  · next fault hr =>
    right
    refine ⟨fun hs => ?_, rfl⟩
    rw [hs.remove] at hr
    cases hr
  · left
    split
    · rfl
    -- There was no trigger, so there is nothing to erase.
    · next hc =>
      exact (Table.erase_of_contains_eq_false _ _ (Bool.eq_false_iff.2 hc)).symm

/-- A flow that is no longer scheduled leaves the registry, and its entry in the tracker is
forgotten. -/
theorem unschedule_eq (s : Setup) (uri : String) (n : Node) :
    ∃ jobs trace, n.unschedule s uri =
      { n with
        registry := n.registry.erase uri
        executions := n.executions.forget uri
        jobs
        trace } := by
  obtain ⟨jobs, trace, h⟩ :=
    removeTrigger_eq s uri { n.strike uri with executions := n.executions.forget uri }
  exact ⟨jobs, trace, h⟩

/-- An unscheduled flow leaves the registry whatever the engine does. -/
@[simp] theorem registry_unschedule (s : Setup) (uri : String) (n : Node) :
    (n.unschedule s uri).registry = n.registry.erase uri := by
  obtain ⟨_, _, h⟩ := unschedule_eq s uri n
  rw [h]

/-- The trigger of a flow that is no longer scheduled is gone, unless the engine refused. -/
theorem jobs_unschedule_cases (s : Setup) (uri : String) (n : Node) :
    (n.unschedule s uri).jobs = n.jobs.erase uri ∨
      (¬ s.replies.EngineServes ∧ (n.unschedule s uri).jobs = n.jobs) :=
  jobs_removeTrigger_cases s uri _

/-- An engine that serves every call lets go of its trigger. -/
theorem jobs_unschedule (hs : s.replies.EngineServes) (uri : String) :
    (n.unschedule s uri).jobs = n.jobs.erase uri :=
  (jobs_unschedule_cases s uri n).resolve_right fun h => h.1 hs

/-- The triggers of other flows stay. -/
theorem jobs_unschedule_of_ne {uri a : String} (h : uri ≠ a) :
    (n.unschedule s uri).jobs[a]? = n.jobs[a]? := by
  rcases jobs_unschedule_cases s uri n with heq | ⟨_, heq⟩
  · rw [heq, Table.lookUp_erase, if_neg h]
  · rw [heq]

/-- A node that does its work itself updates a flow by unscheduling and adding it. -/
theorem update_of_here (h : n.aside s = false) (f : Flow) :
    n.update s (.flow f) = (n.unschedule s f.uri.text).add s (.flow f) := by
  simp [update, Spec.flow?, h]

/-! ### Standing aside -/

/-- A node that stands aside tells the others that the old version is gone, and then that the
    new one is there. -/
theorem update_of_aside (h : n.aside s = true) (f : Flow) :
    n.update s (.flow f) =
      (n.forwardRemoved s f.uri.text f.version.text).forwardAdded s f.uri.text := by
  simp [update, Spec.flow?, h]

/-- Nothing comes of an added spec there but what goes on record. -/
theorem add_eq_of_aside (h : n.aside s = true) (spec : Spec) :
    ∃ trace, n.add s spec = { n with trace } := by
  cases spec with
  | topology t => exact ⟨_, rfl⟩
  | flow f =>
    obtain ⟨trace, heq⟩ := forwardAdded_eq s f.uri.text n
    exact ⟨trace, (addFlow_of_aside h).trans heq⟩

/-- Nor does more come of an updated one. -/
theorem update_eq_of_aside (h : n.aside s = true) (spec : Spec) :
    ∃ trace, n.update s spec = { n with trace } := by
  cases spec with
  | topology t => exact ⟨_, rfl⟩
  | flow f =>
    obtain ⟨_, hremoved⟩ := forwardRemoved_eq s f.uri.text f.version.text n
    obtain ⟨trace, hadded⟩ :=
      forwardAdded_eq s f.uri.text (n.forwardRemoved s f.uri.text f.version.text)
    refine ⟨trace, ?_⟩
    rw [update_of_aside h, hadded, hremoved]

/-- A deleted flow is not unscheduled there either. -/
theorem delete_eq_of_aside (h : n.aside s = true) (uri version : String) :
    ∃ trace, n.delete s uri version = { n with trace } := by
  rw [delete, if_pos h]
  exact forwardRemoved_eq s uri version n

/-! ### The flag and the catalog

Nothing but a change of leadership sets the flag, and no operation of a node's own
writes to its catalog. -/

@[simp] theorem active_forwardAdded (s : Setup) (uri : String) (n : Node) :
    (n.forwardAdded s uri).active = n.active := by
  obtain ⟨_, h⟩ := forwardAdded_eq s uri n
  rw [h]

@[simp] theorem active_forwardRemoved (s : Setup) (uri version : String) (n : Node) :
    (n.forwardRemoved s uri version).active = n.active := by
  obtain ⟨_, h⟩ := forwardRemoved_eq s uri version n
  rw [h]

@[simp] theorem active_addFlow (s : Setup) (f : Flow) (n : Node) :
    (n.addFlow s f).active = n.active := by
  obtain ⟨_, _, _, _, h⟩ := addFlow_eq s f n
  rw [h]

@[simp] theorem catalog_addFlow (s : Setup) (f : Flow) (n : Node) :
    (n.addFlow s f).catalog = n.catalog := by
  obtain ⟨_, _, _, _, h⟩ := addFlow_eq s f n
  rw [h]

@[simp] theorem active_add (s : Setup) (spec : Spec) (n : Node) :
    (n.add s spec).active = n.active := by
  cases spec with
  | flow f => exact active_addFlow s f n
  | topology t => rfl

@[simp] theorem catalog_add (s : Setup) (spec : Spec) (n : Node) :
    (n.add s spec).catalog = n.catalog := by
  cases spec with
  | flow f => exact catalog_addFlow s f n
  | topology t => rfl

@[simp] theorem active_unschedule (s : Setup) (uri : String) (n : Node) :
    (n.unschedule s uri).active = n.active := by
  obtain ⟨_, _, h⟩ := unschedule_eq s uri n
  rw [h]

@[simp] theorem catalog_unschedule (s : Setup) (uri : String) (n : Node) :
    (n.unschedule s uri).catalog = n.catalog := by
  obtain ⟨_, _, h⟩ := unschedule_eq s uri n
  rw [h]

@[simp] theorem active_delete (s : Setup) (uri version : String) (n : Node) :
    (n.delete s uri version).active = n.active := by
  rw [delete]
  split
  · exact active_forwardRemoved s uri version n
  · exact active_unschedule s uri n

@[simp] theorem active_update (s : Setup) (spec : Spec) (n : Node) :
    (n.update s spec).active = n.active := by
  rw [update]
  split
  -- What is not a flow is not updated; a flow is forwarded, or unscheduled and added.
  · rfl
  · split <;> simp

@[simp] theorem catalog_update (s : Setup) (spec : Spec) (n : Node) :
    (n.update s spec).catalog = n.catalog := by
  rw [update]
  split
  · rfl
  · next f _ =>
    split
    · obtain ⟨trace, heq⟩ := forwardRemoved_eq s f.uri.text f.version.text n
      obtain ⟨trace', heq'⟩ := forwardAdded_eq s f.uri.text { n with trace }
      rw [heq, heq']
    · simp

/-- What asking for the list keeps, and adding a spec, restoring keeps, by induction on the
    list of the catalog. -/
theorem restore_keeps {P : Node → Prop} (h : P n) (hlist : P (n.call .list))
    (hfails : ∀ fault, P ((n.call .list).alert (.notListed fault)))
    (hadd : ∀ m spec, P m → P (m.add s spec)) : P (n.restore s) := by
  rw [restore]
  split
  · dsimp only
    split
    · next specs _ => exact List.foldlRecOn specs _ hlist fun m hm spec _ => hadd m spec hm
    · exact hfails _
  · exact h

@[simp] theorem active_restore (s : Setup) (n : Node) : (n.restore s).active = n.active :=
  restore_keeps (P := fun m => m.active = n.active) rfl rfl (fun _ => rfl)
    fun m spec hm => (active_add s spec m).trans hm

/-- After a change of leadership the node leads, or not, as it was told. -/
@[simp] theorem active_lead (s : Setup) (active : Bool) (n : Node) :
    (n.lead s active).active = active := by
  rw [lead]
  -- It led already, or it takes over and restores, or it lays down and deletes.
  split
  · assumption
  · split
    · rw [active_restore]
    · exact List.foldlRecOn (motive := fun m : Node => m.active = active) n.registry.toList _ rfl
        fun m hm entry _ => by rw [active_delete, hm]

/-! ### Stages of activities -/

/-- What a stage of an activity may come to. -/
inductive Activity.Outcome (s : Setup) (n : Node) : Node → Prop where
  /-- Something goes on record, or the catalog takes in or lets go of a spec. -/
  | noted (catalog : Catalog) (trace : List Event) : Outcome s n { n with catalog, trace }
  | added (spec : Spec) : Outcome s n (n.add s spec)
  | updated (spec : Spec) : Outcome s n (n.update s spec)
  | deleted (uri version : String) : Outcome s n (n.delete s uri version)
  /-- A leading node reconciles a removal. -/
  | unscheduled (uri : String) (hactive : n.active = true) : Outcome s n (n.unschedule s uri)

/-- Until a notice is acted on, nothing comes of it but what goes on record. -/
theorem afterLookUp_eq (kind : Notice.Kind) (uri : String) (n : Node)
    (answer : Except Fault (Option Spec)) :
    ∃ trace, (Activity.afterLookUp kind uri n answer).1 = { n with trace } := by
  unfold Activity.afterLookUp
  split
  -- The catalog fails, or a removed flow is still there, or there is something to act on.
  · exact ⟨_, rfl⟩
  · split <;> exact ⟨_, rfl⟩
  · exact ⟨_, rfl⟩

/-- Nor does asking for the flow do more than go on record. -/
theorem lookUp_eq (s : Setup) (kind : Notice.Kind) (uri : String) (n : Node) :
    ∃ trace, (Activity.lookUp s kind uri n).1 = { n with trace } := by
  unfold Activity.lookUp
  split
  · exact ⟨_, rfl⟩
  · exact afterLookUp_eq kind uri n _

namespace Activity

/-- To have an answer is to have something on record. -/
theorem outcome_afterLookUp (s : Setup) (kind : Notice.Kind) (uri : String) (n : Node)
    (answer : Except Fault (Option Spec)) : Outcome s n (afterLookUp kind uri n answer).1 := by
  obtain ⟨trace, heq⟩ := afterLookUp_eq kind uri n answer
  rw [heq]
  exact .noted _ _

/-- So is to ask. -/
theorem outcome_lookUp (s : Setup) (kind : Notice.Kind) (uri : String) (n : Node) :
    Outcome s n (lookUp s kind uri n).1 := by
  obtain ⟨trace, heq⟩ := lookUp_eq s kind uri n
  rw [heq]
  exact .noted _ _

/-- Every stage is one of a few operations, or it changes nothing but the catalog and
    the trace. -/
theorem outcome_step (s : Setup) (a : Activity) (n : Node) : Outcome s n (a.step s n).1 := by
  cases a with
  | notice m =>
    rw [step]
    split <;> exact .noted _ _
  -- The notice is resolved at once, or it has to be read first.
  | resolve m =>
    rw [step]
    split
    · exact outcome_lookUp s _ _ n
    · split
      · exact outcome_lookUp s _ _ n
      · exact .noted _ _
  | consult kind uri => exact outcome_afterLookUp s kind uri n _
  | enter spec => exact .added spec
  | leave uri =>
    rw [step]
    dsimp only
    split
    -- Only while the node still leads does it let go of the flow.
    · next hactive => exact .unscheduled uri hactive
    · exact .noted _ _
  | put spec | delete uri => exact .noted _ _
  | react change others =>
    cases change with
    | added spec => exact .added spec
    | updated spec => exact .updated spec
    | deleted uri version => exact .deleted uri version
  | clear uri version others =>
    rw [step]
    split <;> exact .noted _ _
  | tell change others =>
    obtain ⟨trace, heq⟩ := tell_eq change others n
    rw [step, heq]
    exact .noted _ _

end Activity

/-- On a node that stands aside a stage changes nothing but the catalog and the trace. -/
theorem activity_step_eq_of_aside (h : n.aside s = true) (a : Activity) :
    ∃ catalog trace, (a.step s n).1 = { n with catalog, trace } := by
  have houtcome := a.outcome_step s n
  generalize (a.step s n).1 = m at houtcome ⊢
  cases houtcome with
  | noted catalog trace => exact ⟨catalog, trace, rfl⟩
  | added spec => exact ⟨n.catalog, add_eq_of_aside h spec⟩
  | updated spec => exact ⟨n.catalog, update_eq_of_aside h spec⟩
  | deleted uri version => exact ⟨n.catalog, delete_eq_of_aside h uri version⟩
  -- Only a leading node unschedules a flow, and a node that stands aside does not lead.
  | unscheduled uri hactive =>
    rw [aside_of_active hactive] at h
    cases h

/-- Whatever else a node does, it neither starts nor ceases to lead by it. -/
theorem active_activity_step (s : Setup) (a : Activity) (n : Node) :
    (a.step s n).1.active = n.active := by
  -- By the outcomes of a stage, each of which keeps the flag.
  have houtcome := a.outcome_step s n
  generalize (a.step s n).1 = m at houtcome ⊢
  cases houtcome with
  | noted catalog trace => rfl
  | added spec => exact active_add s spec n
  | updated spec => exact active_update s spec n
  | deleted uri version => exact active_delete s uri version n
  | unscheduled uri _ => exact active_unschedule s uri n

end FlowCadence.Node
