import FlowCadence.Proofs.Node.Standby
/-! # What becomes of an added flow

A node that does its work itself, and that is told of a new flow, looks at the properties of
the flow's job three times: to see whether there is a schedule, to read it, and to see whether
the flow asks to run at once.  All three look at the same properties, those of the flow over
those of the node, and they agree.

So a flow without a schedule is run once.  A flow with one is registered and the engine is
asked once for its trigger, if the schedule can be read; without the trigger the flow does not
stay registered and does not run.  Whatever the engine answers, nothing else is touched.

## Key results

* `get?_configOf`: the properties of the job of a flow
* `register_of_refused`, `register_of_served`, `register_of_failed`: what comes of registering
* `dispatched_added`: what comes of an added flow -/

namespace FlowCadence.Node

variable {s : Setup} {n : Node} {f : Flow}

/-! ### The properties of the job -/

/-- The value of a property of the job of a flow: the job is named by the flow's uri, and
    otherwise the flow's own value counts before that of the node. -/
def Setup.merged (s : Setup) (f : Flow) (key : String) : Option String :=
  if key = JobConfig.nameKey then some f.uri.text else f.properties[key]?.or s.base[key]?

/-- The flow has a schedule, whether or not it can be read. -/
def Setup.Timed (s : Setup) (f : Flow) : Prop :=
  ∃ e, s.merged f JobConfig.scheduleKey = some e ∧ Text.isBlank e = false

/-- The flow asks to run at once: there is such a property, and it does not say `false`. -/
def Setup.Hastens (s : Setup) (f : Flow) : Prop :=
  ∃ v, s.merged f JobConfig.runAtOnceKey = some v ∧ (Text.trim v).toLower ≠ "false"

/-- The job of a flow holds the properties of the flow over those of the node. -/
theorem get?_configOf (s : Setup) (f : Flow) (key : String) :
    (configOf s f).get? key = s.merged f key := by
  rw [configOf, JobConfig.get?_attach, JobConfig.get?, JobConfig.ofFlow, Table.lookUp_insert,
    Properties.getElem?_overlay, Setup.merged]
  simp only [eq_comm]

/-- The job has a schedule just if the flow is timed. -/
theorem hasSchedule_configOf_iff (s : Setup) (f : Flow) :
    (configOf s f).hasSchedule = true ↔ s.Timed f := by
  rw [JobConfig.hasSchedule, JobConfig.expression?, get?_configOf, Setup.Timed]
  -- What is there counts unless it is blank.
  cases s.merged f JobConfig.scheduleKey with
  | none => simp
  | some e => cases hb : Text.isBlank e <;> simp [hb]

/-- The job runs at once just if the flow asks for that. -/
theorem runsAtOnce_configOf_iff (s : Setup) (f : Flow) :
    (configOf s f).runsAtOnce = true ↔ s.Hastens f := by
  rw [JobConfig.runsAtOnce, get?_configOf, Setup.Hastens]
  cases s.merged f JobConfig.runAtOnceKey <;> simp

/-- The schedule of a flow is the one that its expression reads as. -/
theorem schedules_iff (s : Setup) (f : Flow) (sch : Cron.Schedule) :
    s.Schedules f sch ↔ ∃ e, s.merged f JobConfig.scheduleKey = some e ∧
      Text.isBlank e = false ∧ Cron.Schedule.parse e = .ok sch := by
  rw [← schedule_configOf_iff, JobConfig.schedule_eq_ok_some_iff, get?_configOf]

/-- A flow whose schedule can be used is timed. -/
theorem Setup.Schedules.timed {sch : Cron.Schedule} (h : s.Schedules f sch) : s.Timed f := by
  obtain ⟨e, he, hblank, -⟩ := (schedules_iff s f sch).1 h
  exact ⟨e, he, hblank⟩

/-- The decision to install a trigger is only taken for a job that has a schedule to read. -/
theorem schedule_configOf_ne (h : s.Timed f) : (configOf s f).schedule ≠ .ok none := by
  rw [Ne, JobConfig.schedule_eq_ok_none_iff, (hasSchedule_configOf_iff s f).2 h]
  decide

/-! ### Registering a flow -/

/-- What the engine answers when it is to install a trigger for a flow that is being
    registered. -/
def engineAnswer (s : Setup) (f : Flow) (n : Node) (job : ScheduledJob) : Option Fault :=
  s.replies.install ((n.enrol f).call (.install job)) job

/-- The node after a flow was registered in vain. -/
def declined (f : Flow) (fault : Fault) (n : Node) : Node :=
  (n.strike f.uri.text).alert (.notScheduled ⟨.scheduling, f.uri.text, fault⟩)

/-- A schedule that cannot be read keeps the engine from being asked. -/
theorem register_of_refused {fault : Fault} (h : (configOf s f).schedule = .error fault) :
    n.register s f = ((n.enrol f).declined f fault, false) := by
  simp [register, schedule, h, declined]

/-- A trigger that the engine installs is kept, along with the registered flow. -/
theorem register_of_served {sch : Cron.Schedule} (h : s.Schedules f sch)
    (hanswer : n.engineAnswer s f (triggerOf s f sch) = none) :
    n.register s f =
      ({ (n.enrol f).call (.install (triggerOf s f sch)) with
          jobs := n.jobs.insert f.uri.text (triggerOf s f sch) }, true) := by
  rw [← schedule_configOf_iff] at h
  rw [engineAnswer] at hanswer
  simp only [register, schedule, h, triggerFor_enrol, hanswer]
  rfl

/-- One that the engine refuses leaves the flow unregistered. -/
theorem register_of_failed {sch : Cron.Schedule} (h : s.Schedules f sch) {fault : Fault}
    (hanswer : n.engineAnswer s f (triggerOf s f sch) = some fault) :
    n.register s f =
      (((n.enrol f).call (.install (triggerOf s f sch))).declined f fault, false) := by
  rw [← schedule_configOf_iff] at h
  rw [engineAnswer] at hanswer
  simp only [register, schedule, h, triggerFor_enrol, hanswer, name_configOf, declined]

/-- The fault of a job that is to be scheduled without a schedule. -/
def noSchedule (uri : String) : Fault := .validation ("job '" ++ uri ++ "' has no schedule")

/-- A schedule that cannot be read is a fault of its own. -/
theorem ne_noSchedule_of_refused {fault : Fault} (h : (configOf s f).schedule = .error fault) :
    fault ≠ noSchedule f.uri.text := by
  rw [JobConfig.schedule] at h
  split at h
  · cases h
  · split at h
    · cases h
    · next r _ =>
      cases h
      rw [name_configOf]
      intro heq
      -- The two texts differ: an unreadable schedule is told with its expression.
      have htext := congrArg (fun fault => fault.detail.toList) heq
      simp [noSchedule] at htext

/-! ### What becomes of the flow -/

/-- The flow has a schedule that can be used, and the engine installs its trigger. -/
def Installs (s : Setup) (f : Flow) (n : Node) : Prop :=
  ∃ sch, s.Schedules f sch ∧ n.engineAnswer s f (triggerOf s f sch) = none

/-- The second node is the first one after it has dealt with an added flow. -/
structure Dispatched (s : Setup) (f : Flow) (n m : Node) : Prop where
  /-- The engine is asked once for the trigger of a flow whose schedule can be used, and
      nobody is asked for anything else. -/
  attempts : ∀ sch, s.Schedules f sch → m.calls = n.calls ++ [.install (triggerOf s f sch)]
  spares : (∀ sch, ¬ s.Schedules f sch) → m.calls = n.calls
  /-- One run is submitted for a flow without a schedule, and for one whose trigger was
      installed if it asks for that. -/
  submits : ¬ s.Timed f ∨ (n.Installs s f ∧ s.Hastens f) → m.queued = n.queued ++ [configOf s f]
  rests : ¬ (¬ s.Timed f ∨ (n.Installs s f ∧ s.Hastens f)) → m.queued = n.queued
  /-- A flow with a schedule is registered if its trigger was installed, and otherwise nothing
      is registered under its uri. -/
  registers : s.Timed f → n.Installs s f → m.registry[f.uri.text]? = some f
  vacates : s.Timed f → ¬ n.Installs s f → m.registry[f.uri.text]? = none
  /-- A flow without a schedule leaves the registry alone. -/
  keeps : ¬ s.Timed f → m.registry = n.registry
  /-- The trigger is in the engine if it was installed, and otherwise the triggers stay. -/
  installs : ∀ sch, s.Schedules f sch → n.Installs s f →
    m.jobs = n.jobs.insert f.uri.text (triggerOf s f sch)
  leaves : ¬ n.Installs s f → m.jobs = n.jobs
  /-- No other uri is touched, -/
  others : ∀ uri, f.uri.text ≠ uri →
    m.registry[uri]? = n.registry[uri]? ∧ m.jobs[uri]? = n.jobs[uri]?
  /-- nor anything but the registry, the triggers, the queue and the trace. -/
  frame : m = { n with
    registry := m.registry, jobs := m.jobs, queued := m.queued, trace := m.trace }
  /-- No job is scheduled that has no schedule: the decision to install is not taken for one, -/
  agrees : (Dispatch.choose n.active s.clustered (configOf s f).hasSchedule
    (configOf s f).runsAtOnce).installs = true → (configOf s f).schedule ≠ .ok none
  /-- and no failure says so, unless these are the engine's own words. -/
  reports : ∀ failure, Event.alert (.notScheduled failure) ∈ m.trace →
    failure.cause = noSchedule f.uri.text → Event.alert (.notScheduled failure) ∈ n.trace ∨
      ∃ sch, s.Schedules f sch ∧ n.engineAnswer s f (triggerOf s f sch) = some failure.cause

/-- A flow without a schedule is run once, and nothing else happens. -/
theorem dispatched_of_untimed (haside : n.aside s = false) (h : ¬ s.Timed f) :
    Dispatched s f n (n.addFlow s f) := by
  have hsched : (configOf s f).hasSchedule = false :=
    Bool.eq_false_iff.2 fun hc => h ((hasSchedule_configOf_iff s f).1 hc)
  have hno (sch : Cron.Schedule) : ¬ s.Schedules f sch := fun hsch => h hsch.timed
  have hnot : ¬ n.Installs s f := fun ⟨sch, hsch, _⟩ => hno sch hsch
  rw [addFlow_of_unscheduled haside hsched]
  exact {
    attempts := fun sch hsch => absurd hsch (hno sch)
    spares := fun _ => rfl
    submits := fun _ => rfl
    rests := fun hrests => absurd (.inl h) hrests
    registers := fun htimed => absurd htimed h
    vacates := fun htimed => absurd htimed h
    keeps := fun _ => rfl
    installs := fun sch hsch => absurd hsch (hno sch)
    leaves := fun _ => rfl
    others := fun _ _ => ⟨rfl, rfl⟩
    frame := rfl
    agrees := fun hinstalls => by
      rw [Dispatch.installs_choose haside, hsched] at hinstalls
      cases hinstalls
    reports := fun _ hmem _ => .inl hmem }

/-- A flow that was registered in vain leaves nothing behind but what is on record. -/
theorem dispatched_of_declined {fault : Fault} {trace : List Event} (htimed : s.Timed f)
    (hnot : ¬ n.Installs s f)
    (hasked : ∀ sch, s.Schedules f sch → trace = n.trace ++ [.call (.install (triggerOf s f sch))])
    (hspared : (∀ sch, ¬ s.Schedules f sch) → trace = n.trace)
    (hfault : fault = noSchedule f.uri.text →
      ∃ sch, s.Schedules f sch ∧ n.engineAnswer s f (triggerOf s f sch) = some fault) :
    Dispatched s f n (({ n.enrol f with trace } : Node).declined f fault) where
  attempts sch hsch := by simp [calls, declined, strike, alert, hasked sch hsch]
  spares hno := by simp [calls, declined, strike, alert, hspared hno]
  submits hsubmits := by
    rcases hsubmits with huntimed | ⟨hinstalls, -⟩
    · exact absurd htimed huntimed
    · exact absurd hinstalls hnot
  rests _ := rfl
  registers _ hinstalls := absurd hinstalls hnot
  vacates _ _ := by simp [declined, strike]
  keeps huntimed := absurd htimed huntimed
  installs _ _ hinstalls := absurd hinstalls hnot
  leaves _ := rfl
  others uri hne := by simp [declined, strike, enrol, Table.lookUp_erase, Table.lookUp_insert, hne]
  frame := rfl
  agrees _ := schedule_configOf_ne htimed
  reports failure hmem hcause := by
    rcases List.mem_append.1 hmem with hbefore | hlast
    · left
      -- What was on record before the fault is the old trace, with one call if the engine was
      -- asked.
      by_cases hsch : ∃ sch, s.Schedules f sch
      · obtain ⟨sch, hsch⟩ := hsch
        simpa [strike, hasked sch hsch] using hbefore
      · simpa [strike, hspared fun sch h => hsch ⟨sch, h⟩] using hbefore
    · right
      obtain rfl : failure = ⟨.scheduling, f.uri.text, fault⟩ := by simpa using hlast
      exact hfault hcause

/-- A flow whose trigger is installed is registered, and it runs at once if it asks for that. -/
theorem dispatched_of_served (haside : n.aside s = false) {sch : Cron.Schedule}
    (h : s.Schedules f sch) (hanswer : n.engineAnswer s f (triggerOf s f sch) = none) :
    Dispatched s f n (n.addFlow s f) := by
  have hserved : n.Installs s f := ⟨sch, h, hanswer⟩
  have hadd : n.addFlow s f =
      { n with
        registry := n.registry.insert f.uri.text f
        jobs := n.jobs.insert f.uri.text (triggerOf s f sch)
        queued := if (configOf s f).runsAtOnce then n.queued ++ [configOf s f] else n.queued
        trace := n.trace ++ [.call (.install (triggerOf s f sch))] } := by
    rw [addFlow_of_scheduled haside ((hasSchedule_configOf_iff s f).2 h.timed),
      register_of_served h hanswer]
    cases (configOf s f).runsAtOnce <;> rfl
  rw [hadd]
  exact {
    attempts := fun other hother => by simp [calls, hother.unique h]
    spares := fun hno => absurd h (hno sch)
    submits := fun hsubmits => by
      rcases hsubmits with huntimed | ⟨-, hhastens⟩
      · exact absurd h.timed huntimed
      · exact if_pos ((runsAtOnce_configOf_iff s f).2 hhastens)
    rests := fun hrests => if_neg fun hruns =>
      hrests (.inr ⟨hserved, (runsAtOnce_configOf_iff s f).1 hruns⟩)
    registers := fun _ _ => by rw [Table.lookUp_insert, if_pos rfl]
    vacates := fun _ hnot => absurd hserved hnot
    keeps := fun huntimed => absurd h.timed huntimed
    installs := fun other hother _ => by rw [hother.unique h]
    leaves := fun hnot => absurd hserved hnot
    others := fun uri hne => by simp [Table.lookUp_insert, hne]
    frame := rfl
    agrees := fun _ => schedule_configOf_ne h.timed
    reports := fun failure hmem _ => .inl (by simpa using hmem) }

/-- A node that does its work itself deals with an added flow in this way, in whatever state it
    is, whatever properties it and the flow have, and whatever the engine answers. -/
theorem dispatched_added (haside : n.aside s = false) (f : Flow) :
    Dispatched s f n (n.obey s (.change (.added (.flow f)))) := by
  rw [obey_change s (.added (.flow f)) n rfl]
  show Dispatched s f n (n.addFlow s f)
  -- The flow has a schedule or not; if it has, it can be read or not; and the engine may refuse.
  by_cases htimed : s.Timed f
  · have hadd := addFlow_of_scheduled haside ((hasSchedule_configOf_iff s f).2 htimed)
    cases hsched : (configOf s f).schedule with
    | ok o =>
      cases o with
      | none => exact absurd hsched (schedule_configOf_ne htimed)
      | some sch =>
        have hsch := (schedule_configOf_iff s f sch).1 hsched
        cases hanswer : n.engineAnswer s f (triggerOf s f sch) with
        | none => exact dispatched_of_served haside hsch hanswer
        | some fault =>
          have hunique {other : Cron.Schedule} (h : s.Schedules f other) : other = sch :=
            h.unique hsch
          rw [hadd, register_of_failed hsch hanswer]
          refine dispatched_of_declined htimed ?_ (fun other h => hunique h ▸ rfl)
            (fun hno => absurd hsch (hno sch)) fun _ => ⟨sch, hsch, hanswer⟩
          rintro ⟨other, h, hserved⟩
          rw [hunique h, hanswer] at hserved
          cases hserved
    | error fault =>
      have hno (sch : Cron.Schedule) : ¬ s.Schedules f sch := by
        intro hsch
        rw [(schedule_configOf_iff s f sch).2 hsch] at hsched
        cases hsched
      rw [hadd, register_of_refused hsched]
      exact dispatched_of_declined htimed (fun ⟨sch, hsch, _⟩ => hno sch hsch)
        (fun sch hsch => absurd hsch (hno sch)) (fun _ => rfl)
        fun heq => absurd heq (ne_noSchedule_of_refused hsched)
  · exact dispatched_of_untimed haside htimed

/-- A node whose own properties name a job and hold a schedule. -/
private def scheduledBase : Setup :=
  { Setup.plain .reliable with
    base := ((∅ : Properties).insert JobConfig.nameKey "backup").insert JobConfig.scheduleKey
      "0 0 * * *" }

/-- A version that takes over the schedule of the node. -/
private def inheritingFlow : Flow := ⟨⟨"flow://q", Eq.refl false⟩, ⟨"1", Eq.refl false⟩, none, ∅⟩

/-- The next version hides that schedule behind a blank. -/
private def hidingFlow : Flow := timed ⟨"flow://q", Eq.refl false⟩ ⟨"2", Eq.refl false⟩ " "

private def leaderWithInherited : Node :=
  Node.initial.obeyAll scheduledBase [.lead true, .change (.added (.flow inheritingFlow))]

/-- The next version is added: it is run once, and the first one stays registered. -/
theorem dispatched_hiding :
    let m := leaderWithInherited.obey scheduledBase (.change (.added (.flow hidingFlow)))
    leaderWithInherited.aside scheduledBase = false ∧
      leaderWithInherited.registry["flow://q"]? = some inheritingFlow ∧
      m.calls = leaderWithInherited.calls ∧
      m.queued = leaderWithInherited.queued ++ [configOf scheduledBase hidingFlow] ∧
      m.registry = leaderWithInherited.registry := by
  intro m
  have haside : leaderWithInherited.aside scheduledBase = false := by decide +kernel
  have hdispatched : Dispatched scheduledBase hidingFlow leaderWithInherited m :=
    dispatched_added haside hidingFlow
  have huntimed : ¬ scheduledBase.Timed hidingFlow := by
    rw [← hasSchedule_configOf_iff]
    decide +kernel
  exact ⟨haside, by decide +kernel, hdispatched.spares fun sch hsch => huntimed hsch.timed,
    hdispatched.submits (.inl huntimed), hdispatched.keeps huntimed⟩

end FlowCadence.Node
