import FlowCadence.Node.Laden
import FlowCadence.Proofs.Node.Alignment
import FlowCadence.Proofs.Node.Invariant
/-! # Where triggers and queued jobs come from

A trigger is installed for a flow that the node was brought: one that was added, one that
was changed, or one that was listed when the node took the lead.  It holds that flow, both
as it was registered and as a part of its configuration.  So does every job that is queued.

Whatever the collaborators answer, nothing else installs triggers.  Deletions and the end
of a term remove them, or leave them where they are, and runs do not touch them at all.

## Key results

* `jobs_busy_step_cases`: a move installs triggers of flows that it brings, and no others
* `QueuesFlows.invariant`: jobs of flows are queued, and no others
* `laden_step_of_not_work`: runs and firings leave registry and triggers alone -/

namespace FlowCadence.Node

variable {s : Setup} {n : Node}

/-- The trigger is that of a flow with a schedule that can be used, under the uri of the flow. -/
def Setup.Triggers (s : Setup) (f : Flow) (name : String) (job : ScheduledJob) : Prop :=
  f.uri.text = name ∧ ∃ sch, s.Schedules f sch ∧ job = triggerOf s f sch

/-- The changed spec that a move puts in the place of an earlier version. -/
def Busy.revision? (s : Setup) (b : Busy) : Move → Option Spec
  | .accept _ => none
  | .advance place =>
    match b.underway[place]? with
    | some (.react (.updated spec) _) => if b.node.aside s then none else some spec
    | _ => none

/-- The flows that a move brings, to be scheduled or run. -/
def Busy.brings (s : Setup) (b : Busy) (move : Move) : List Flow :=
  (b.additions s move ++ (b.revision? s move).toList).filterMap Spec.flow?

/-- The flows that a move brings; runs bring none. -/
def Laden.brings (s : Setup) (b : Laden) : Laden.Move → List Flow
  | .work move => b.busy.brings s move
  | .fire _ | .dispatch _ | .proceed _ => []

/-- No trigger is installed without a flow. -/
def Laden.Turn.SchedulesFlows (turn : Laden.Turn) : Prop :=
  ∀ config listener, turn.move ≠ .work (.accept (.schedule config listener))

/-! ### The triggers of one operation -/

/-- A trigger that is there after a flow is added was there before, or it is that of the flow. -/
theorem jobs_addFlow_cases {f : Flow} {name : String} {job : ScheduledJob}
    (h : (n.addFlow s f).jobs[name]? = some job) :
    n.jobs[name]? = some job ∨ (n.aside s = false ∧ s.Triggers f name job) := by
  cases haside : n.aside s with
  | true =>
    -- A node that stands aside only notifies others.
    obtain ⟨_, heq⟩ := forwardAdded_eq s f.uri.text n
    rw [addFlow_of_aside haside, heq] at h
    exact .inl h
  | false =>
    -- Nothing was registered, or the trigger went in, or the engine refused it.
    rcases addFlow_cases s f n with ⟨-, hj⟩ | ⟨sch, hsch, -, hj⟩ | ⟨-, hj⟩
    · rw [hj] at h
      exact .inl h
    · rw [hj, Table.lookUp_insert] at h
      split at h
      · next heq =>
        cases h
        exact .inr ⟨rfl, heq, sch, (schedule_configOf_iff s f sch).1 hsch, rfl⟩
      · exact .inl h
    · rw [hj] at h
      exact .inl h

/-- Adding a spec installs the trigger of its flow, if it is one, and no other. -/
theorem jobs_add_cases {spec : Spec} {name : String} {job : ScheduledJob}
    (h : (n.add s spec).jobs[name]? = some job) :
    n.jobs[name]? = some job ∨
      (n.aside s = false ∧ ∃ f, spec.flow? = some f ∧ s.Triggers f name job) := by
  cases spec with
  | topology t => exact .inl h
  | flow f =>
    rcases jobs_addFlow_cases h with hold | ⟨haside, hnew⟩
    · exact .inl hold
    · exact .inr ⟨haside, f, rfl, hnew⟩

/-- Unscheduling installs nothing. -/
theorem jobs_of_unschedule {uri name : String} {job : ScheduledJob}
    (h : (n.unschedule s uri).jobs[name]? = some job) : n.jobs[name]? = some job := by
  rcases jobs_unschedule_cases s uri n with hj | ⟨-, hj⟩
  · rw [hj, Table.lookUp_erase] at h
    split at h
    · cases h
    · exact h
  · rw [hj] at h
    exact h

/-- So does deleting, which unschedules the uri or notifies others. -/
theorem jobs_of_delete {uri version name : String} {job : ScheduledJob}
    (h : (n.delete s uri version).jobs[name]? = some job) : n.jobs[name]? = some job := by
  rw [delete] at h
  split at h
  · obtain ⟨_, heq⟩ := forwardRemoved_eq s uri version n
    rw [heq] at h
    exact h
  · exact jobs_of_unschedule h

/-- Updating unschedules the uri first, so what it installs is what adding installs. -/
theorem jobs_update_cases {spec : Spec} {name : String} {job : ScheduledJob}
    (h : (n.update s spec).jobs[name]? = some job) :
    n.jobs[name]? = some job ∨
      (n.aside s = false ∧ ∃ f, spec.flow? = some f ∧ s.Triggers f name job) := by
  cases spec with
  | topology t => exact .inl h
  | flow f =>
    cases haside : n.aside s with
    | true =>
      obtain ⟨_, heq⟩ := update_eq_of_aside haside (.flow f)
      rw [heq] at h
      exact .inl h
    | false =>
      rw [update_of_here haside] at h
      rcases jobs_add_cases h with hold | ⟨-, hnew⟩
      · exact .inl (jobs_of_unschedule hold)
      · exact .inr ⟨rfl, hnew⟩

/-- Adding specs one by one installs triggers of flows among them. -/
theorem jobs_addAll_cases {specs : List Spec} {name : String} {job : ScheduledJob}
    (h : (n.addAll s specs).jobs[name]? = some job) :
    n.jobs[name]? = some job ∨ ∃ f ∈ specs.filterMap Spec.flow?, s.Triggers f name job := by
  induction specs generalizing n with
  | nil => exact .inl h
  | cons spec specs ih =>
    rw [addAll_cons] at h
    rcases ih h with hfirst | ⟨f, hf, hnew⟩
    · rcases jobs_add_cases hfirst with hold | ⟨-, f, hf, hnew⟩
      · exact .inl hold
      · exact .inr ⟨f, List.mem_filterMap.2 ⟨spec, List.mem_cons_self, hf⟩, hnew⟩
    · obtain ⟨spec', hmem, hflow⟩ := List.mem_filterMap.1 hf
      exact .inr ⟨f, List.mem_filterMap.2 ⟨spec', List.mem_cons_of_mem _ hmem, hflow⟩, hnew⟩

/-! ### The triggers of one move -/

/-- A node that ceases to lead installs nothing. -/
theorem jobs_of_lead_false {name : String} {job : ScheduledJob}
    (h : (n.lead s false).jobs[name]? = some job) : n.jobs[name]? = some job := by
  by_cases hsame : n.active = false
  · rw [lead, if_pos hsame] at h
    exact h
  · -- The term ends with deletions.
    have hkept : ∀ job, (n.lead s false).jobs[name]? = some job → n.jobs[name]? = some job := by
      rw [lead, if_neg hsame, if_neg Bool.false_ne_true]
      exact List.foldlRecOn
        (motive := fun m : Node => ∀ job, m.jobs[name]? = some job → n.jobs[name]? = some job)
        n.registry.toList _ (fun _ hjob => hjob)
        fun m hm entry _ job hjob => hm job (jobs_of_delete hjob)
    exact hkept job h

/-- A node that is to lead installs triggers of listed flows. -/
theorem jobs_lead_true_cases {b : Busy} {name : String} {job : ScheduledJob}
    (h : (b.node.lead s true).jobs[name]? = some job) :
    b.node.jobs[name]? = some job ∨
      ∃ f ∈ b.brings s (.accept (.lead true)), s.Triggers f name job := by
  obtain ⟨trace, heq⟩ := lead_true_eq s b
  have hbrings : b.brings s (.accept (.lead true)) =
      (b.additions s (.accept (.lead true))).filterMap Spec.flow? := by
    simp [Busy.brings, Busy.revision?]
  rw [heq] at h
  rw [hbrings]
  exact jobs_addAll_cases (n := { b.node with active := true, trace }) h

/-- A stage of an activity installs triggers of the flow that it adds or updates. -/
theorem jobs_advance_cases {b : Busy} {place : Nat} {name : String} {job : ScheduledJob}
    (h : (b.step s (.advance place)).node.jobs[name]? = some job) :
    b.node.jobs[name]? = some job ∨
      ∃ f ∈ b.brings s (.advance place), s.Triggers f name job := by
  cases ha : b.underway[place]? with
  | none =>
    rw [Busy.step, ha] at h
    exact .inl h
  | some a =>
    have hnew (spec : Spec) (f : Flow) (hf : spec.flow? = some f) (hmem : spec ∈
        b.additions s (.advance place) ++ (b.revision? s (.advance place)).toList) :
        f ∈ b.brings s (.advance place) :=
      List.mem_filterMap.2 ⟨spec, hmem, hf⟩
    simp only [Busy.step, Busy.additions, Busy.revision?, ha] at h hnew
    -- Three kinds of stages bring a flow, two remove triggers, and the others leave them alone.
    cases a with
    | enter spec =>
      rcases jobs_add_cases h with hold | ⟨haside, f, hf, htrigger⟩
      · exact .inl hold
      · exact .inr ⟨f, hnew spec f hf (by simp [haside]), htrigger⟩
    | react change others =>
      cases change with
      | added spec =>
        rcases jobs_add_cases h with hold | ⟨haside, f, hf, htrigger⟩
        · exact .inl hold
        · exact .inr ⟨f, hnew spec f hf (by simp [haside]), htrigger⟩
      | updated spec =>
        rcases jobs_update_cases h with hold | ⟨haside, f, hf, htrigger⟩
        · exact .inl hold
        · exact .inr ⟨f, hnew spec f hf (by simp [haside]), htrigger⟩
      | deleted uri version => exact .inl (jobs_of_delete h)
    | leave uri =>
      simp only [Activity.step] at h
      split at h
      · exact .inl (jobs_of_unschedule h)
      · exact .inl h
    | notice m =>
      simp only [Activity.step] at h
      split at h <;> exact .inl h
    | resolve m =>
      -- Looking a notice's spec up only leaves traces.
      have hlookUp (kind : Notice.Kind) (uri : String) :
          (Activity.lookUp s kind uri b.node).1.jobs = b.node.jobs := by
        obtain ⟨trace, heq⟩ := lookUp_eq s kind uri b.node
        rw [heq]
      simp only [Activity.step] at h
      split at h
      · exact .inl (hlookUp _ _ ▸ h)
      · split at h
        · exact .inl (hlookUp _ _ ▸ h)
        · exact .inl h
    | consult kind uri =>
      obtain ⟨trace, heq⟩ := afterLookUp_eq kind uri b.node (s.replies.lookUp b.node uri)
      simp only [Activity.step, heq] at h
      exact .inl h
    | put spec | delete uri => exact .inl h
    | clear uri version others =>
      simp only [Activity.step] at h
      split at h <;> exact .inl h
    | tell change others =>
      obtain ⟨trace, heq⟩ := tell_eq change others b.node
      simp only [Activity.step, heq] at h
      exact .inl h

/-- A move installs triggers of flows that it brings, and no others, unless it installs one
    without a flow. -/
theorem jobs_busy_step_cases {b : Busy} {move : Move} {name : String} {job : ScheduledJob}
    (hflows : ∀ config listener, move ≠ .accept (.schedule config listener))
    (h : (b.step s move).node.jobs[name]? = some job) :
    b.node.jobs[name]? = some job ∨ ∃ f ∈ b.brings s move, s.Triggers f name job := by
  cases move with
  | accept c =>
    cases c with
    | lead active =>
      cases active with
      | true => exact jobs_lead_true_cases h
      | false => exact .inl (jobs_of_lead_false h)
    | schedule config listener => exact absurd rfl (hflows config listener)
    | change c | notice m | put spec | delete uri => exact .inl h
  | advance place => exact jobs_advance_cases h

/-! ### Queued jobs -/

/-- Every queued job is that of a flow, which is attached to it. -/
def QueuesFlows (s : Setup) (n : Node) : Prop := ∀ config ∈ n.queued, ∃ f, config = configOf s f

namespace QueuesFlows

variable {m : Node}

/-- Only the queue counts. -/
theorem of_queued (h : QueuesFlows s n) (hm : m.queued = n.queued) : QueuesFlows s m := by
  intro config hconfig
  rw [hm] at hconfig
  exact h config hconfig

/-- The job of a flow may join the queue. -/
theorem enqueue (h : QueuesFlows s n) (f : Flow) : QueuesFlows s (n.enqueue (configOf s f)) := by
  intro config hconfig
  rcases List.mem_append.1 hconfig with hold | hnew
  · exact h config hold
  · exact ⟨f, List.mem_singleton.1 hnew⟩

/-- Adding a flow queues its job at most. -/
theorem addFlow (h : QueuesFlows s n) (f : Flow) : QueuesFlows s (n.addFlow s f) := by
  cases haside : n.aside s with
  | true =>
    obtain ⟨trace, heq⟩ := forwardAdded_eq s f.uri.text n
    rw [addFlow_of_aside haside, heq]
    exact h.of_queued rfl
  | false =>
    cases hc : (configOf s f).hasSchedule with
    | false =>
      rw [addFlow_of_unscheduled haside hc]
      exact h.enqueue f
    | true =>
      obtain ⟨registry, jobs, trace, heq⟩ := register_eq s f n
      rw [addFlow_of_scheduled haside hc, heq]
      -- The job is queued at once if the flow asks for it.
      split
      · exact (h.of_queued rfl).enqueue f
      · exact h.of_queued rfl

/-- Unscheduling leaves the queue as it is. -/
theorem unschedule (h : QueuesFlows s n) (uri : String) : QueuesFlows s (n.unschedule s uri) := by
  obtain ⟨jobs, trace, heq⟩ := unschedule_eq s uri n
  rw [heq]
  exact h.of_queued rfl

/-- Nothing is queued but jobs of flows. -/
theorem invariant (s : Setup) : Invariant s (QueuesFlows s) where
  noted _ _ _ h := h.of_queued rfl
  addFlow f h := h.addFlow f
  unschedule uri h := h.unschedule uri
  schedule config listener h := by
    obtain ⟨jobs, trace, heq⟩ := schedule_eq s config listener _
    rw [heq]
    exact h.of_queued rfl

end QueuesFlows

/-! ### Runs leave everything installed -/

/-- A stage of a run changes the executions and the trace, and nothing else. -/
theorem duty_step_eq (s : Setup) (d : Duty) (n : Node) :
    ∃ executions trace, (d.step s n).1 = { n with executions, trace } := by
  cases d with
  | chosen origin h => exact ⟨_, _, rfl⟩
  | stage run =>
    cases run with
    | offered name payload =>
      refine ⟨n.executions, n.trace, ?_⟩
      cases haside : n.aside s <;> simp [Duty.step, Execution.Run.step, runner, haside]
    | accepted name payload => exact ⟨_, _, rfl⟩
    | ready origin config listener =>
      refine ⟨n.executions, n.trace, ?_⟩
      -- The flow is found or not; nothing is changed either way.
      cases hflow : n.flowFor config <;> simp [Duty.step, handOver, hflow]
    | underway origin h =>
      show ∃ executions trace, (n.takeBack s h).1 = { n with executions, trace }
      rw [takeBack]
      split <;> split <;> exact ⟨_, _, rfl⟩
    | returned origin result =>
      show ∃ executions trace, (Execution.Run.close (runner s) result origin n).1 =
        { n with executions, trace }
      cases origin with
      | requested => exact ⟨_, _, rfl⟩
      | queued => cases result <;> exact ⟨_, _, rfl⟩
      | firing name =>
        cases hfinish : n.executions.finish name (Execution.succeeded result) with
        | mk executions outcome =>
        simp only [Execution.Run.close, runner, hfinish]
        cases outcome.2 <;> cases result <;> exact ⟨_, _, rfl⟩

/-- Nothing but work changes the registry or the triggers, and nothing else queues jobs. -/
theorem laden_step_of_not_work {b : Laden} {move : Laden.Move} (h : ∀ work, move ≠ .work work) :
    (b.step s move).node.registry = b.node.registry ∧ (b.step s move).node.jobs = b.node.jobs ∧
      ∀ config ∈ (b.step s move).node.queued, config ∈ b.node.queued := by
  cases move with
  | work work => exact absurd rfl (h work)
  | fire job => exact ⟨rfl, rfl, fun _ hconfig => hconfig⟩
  | dispatch place =>
    rw [Laden.step]
    split
    · exact ⟨rfl, rfl, fun _ hconfig => hconfig⟩
    · exact ⟨rfl, rfl, fun _ hconfig => List.mem_of_mem_eraseIdx hconfig⟩
  | proceed place =>
    rw [Laden.step]
    split
    · exact ⟨rfl, rfl, fun _ hconfig => hconfig⟩
    · next d _ =>
      obtain ⟨executions, trace, heq⟩ := duty_step_eq s d b.node
      show (d.step s b.node).1.registry = _ ∧ (d.step s b.node).1.jobs = _ ∧
        ∀ config ∈ (d.step s b.node).1.queued, _
      rw [heq]
      exact ⟨rfl, rfl, fun _ hconfig => hconfig⟩

end FlowCadence.Node
