import FlowCadence.Cron.Schedule
import FlowCadence.Spec.Basic
/-! # Job configurations

The configuration of a job is a table of properties, and possibly the flow it
was made from.  Three properties have a meaning here: the name of the job, its
schedule, and the request to run at once.

What a node does with a flow that was added depends on the last two: it hands the news on, or
acts on it by installing a recurring trigger, by running the flow once, or by both. -/

namespace FlowCadence

/-- The configuration of one recurring or single job. -/
structure JobConfig where
  properties : Properties
  /-- The flow that the configuration was made from, where it is attached. -/
  flow : Option Flow
  deriving DecidableEq

namespace JobConfig

/-- The property that names the job. -/
def nameKey : String := "job.name"

/-- The property that holds the schedule. -/
def scheduleKey : String := "job.schedule"

/-- The property that asks for a run at once. -/
def runAtOnceKey : String := "flow.runImmediately"

/-- A configuration from properties alone. -/
def ofProperties (ps : Properties) : JobConfig := ⟨ps, none⟩

/-- The configuration for a flow: the base properties, the flow's own on top of
    them, and the flow's uri as the name of the job. -/
def ofFlow (base : Properties) (f : Flow) : JobConfig :=
  ⟨(base.overlay f.properties).insert nameKey f.uri.text, none⟩

/-- The configuration with a flow attached. -/
def attach (c : JobConfig) (f : Flow) : JobConfig := { c with flow := some f }

/-- The value of a property. -/
def get? (c : JobConfig) (key : String) : Option String := c.properties[key]?

/-- The name of the job, empty when it has none. -/
def name (c : JobConfig) : String := (c.get? nameKey).getD ""

/-- The expression of the schedule, if there is one that is not blank. -/
def expression? (c : JobConfig) : Option String :=
  (c.get? scheduleKey).filter fun e => !Text.isBlank e

/-- Whether the job has a schedule. -/
def hasSchedule (c : JobConfig) : Bool := c.expression?.isSome

/-- The schedule of the job, if it has one; an expression that is refused is a
    fault that names the job. -/
def schedule (c : JobConfig) : Except Fault (Option Cron.Schedule) :=
  match c.expression? with
  | none => .ok none
  | some e =>
    match Cron.Schedule.parse e with
    | .ok s => .ok (some s)
    | .error r => .error (.validation
        ("job '" ++ c.name ++ "' has an unusable schedule: " ++ r.fault.message))

/-- Whether a run at once is asked for: the property is there, and is not `false`
    in either case. -/
def runsAtOnce (c : JobConfig) : Bool :=
  (c.get? runAtOnceKey).any fun v => (Text.trim v).toLower != "false"

/-- The job of a flow goes by the uri of the flow. -/
@[simp] theorem name_ofFlow (base : Properties) (f : Flow) : (ofFlow base f).name = f.uri.text := by
  simp [name, get?, ofFlow]

@[simp] theorem get?_attach (c : JobConfig) (f : Flow) (key : String) :
    (c.attach f).get? key = c.get? key := rfl

@[simp] theorem name_attach (c : JobConfig) (f : Flow) : (c.attach f).name = c.name := rfl

/-- The uri of a flow takes the place of a name only, never of a schedule. -/
theorem get?_scheduleKey_ofFlow (base : Properties) (f : Flow) :
    (ofFlow base f).get? scheduleKey = (base.overlay f.properties)[scheduleKey]? := by
  rw [get?, ofFlow, Table.lookUp_insert, if_neg (by decide)]

/-- A configuration is without a schedule exactly when there is nothing to refuse. -/
theorem schedule_eq_ok_none_iff (c : JobConfig) :
    c.schedule = .ok none ↔ c.hasSchedule = false := by
  rw [schedule, hasSchedule]
  cases c.expression? with
  | none => simp
  | some e => cases h : Cron.Schedule.parse e <;> simp [h]

/-- A usable schedule is what the parser makes of an expression that is not blank. -/
theorem schedule_eq_ok_some_iff (c : JobConfig) (sch : Cron.Schedule) :
    c.schedule = .ok (some sch) ↔
      ∃ e, c.get? scheduleKey = some e ∧ Text.isBlank e = false ∧
        Cron.Schedule.parse e = .ok sch := by
  have he (e : String) : c.expression? = some e ↔
      c.get? scheduleKey = some e ∧ Text.isBlank e = false := by
    simp [expression?, Option.filter_eq_some_iff]
  rw [schedule]
  constructor
  · intro h
    cases hx : c.expression? with
    | none => simp [hx] at h
    | some e =>
      obtain ⟨hget, hblank⟩ := (he e).1 hx
      rw [hx] at h
      cases hp : Cron.Schedule.parse e with
      | error r => simp [hp] at h
      | ok parsed =>
        simp only [hp, Except.ok.injEq, Option.some.injEq] at h
        exact ⟨e, hget, hblank, by rw [hp, h]⟩
  · rintro ⟨e, hget, hblank, hp⟩
    simp only [(he e).2 ⟨hget, hblank⟩, hp]

end JobConfig

/-! ## Dispatch of an added flow -/

/-- Whether a node leaves the work to the controller: it is on standby and a
    cluster is there.  A node on its own always acts. -/
def standsAside (active clustered : Bool) : Bool := !active && clustered

/-- What is done with an added flow. -/
inductive Dispatch where
  /-- Tell the controller and do nothing here. -/
  | forward
  /-- Install a recurring trigger. -/
  | recurring
  /-- Run once, now. -/
  | once
  /-- Install a recurring trigger and run once, now. -/
  | recurringAndOnce
  deriving DecidableEq, Repr

namespace Dispatch

/-- Standing aside comes first.  Otherwise a schedule decides between recurring
    and once, and a request to run at once adds a run to a recurring trigger. -/
def choose (active clustered scheduled atOnce : Bool) : Dispatch :=
  if standsAside active clustered then .forward
  else if scheduled then (if atOnce then .recurringAndOnce else .recurring)
  else .once

/-- Whether a recurring trigger is installed. -/
def installs : Dispatch → Bool
  | .recurring | .recurringAndOnce => true
  | .forward | .once => false

/-- Whether a run is submitted now. -/
def runsOnce : Dispatch → Bool
  | .once | .recurringAndOnce => true
  | .forward | .recurring => false

/-- The name used in reports. -/
def label : Dispatch → String
  | .forward => "forward"
  | .recurring => "install_recurring"
  | .once => "run_once"
  | .recurringAndOnce => "install_and_run_once"

/-- Only a node that stands aside forwards. -/
theorem choose_eq_forward_iff {active clustered scheduled atOnce : Bool} :
    choose active clustered scheduled atOnce = .forward ↔ standsAside active clustered := by
  cases active <;> cases clustered <;> cases scheduled <;> cases atOnce <;> decide

/-- A node that does not stand aside installs a trigger just if there is a schedule. -/
theorem installs_choose {active clustered : Bool} (h : standsAside active clustered = false)
    (scheduled atOnce : Bool) :
    (choose active clustered scheduled atOnce).installs = scheduled := by
  cases scheduled <;> cases atOnce <;> simp [choose, h, installs]

/-- It runs the flow just if there is no schedule, or the flow is to run at once. -/
theorem runsOnce_choose {active clustered : Bool} (h : standsAside active clustered = false)
    (scheduled atOnce : Bool) :
    (choose active clustered scheduled atOnce).runsOnce = (!scheduled || atOnce) := by
  cases scheduled <;> cases atOnce <;> simp [choose, h, runsOnce]

end Dispatch

end FlowCadence
