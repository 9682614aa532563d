import FlowCadence.Fault
import FlowCadence.Properties
/-! # Tracking executions

The life of one execution of a job: pending, then running, then one of three terminal states.
`State.after` is the transition table; what it does not list is refused.

The tracker keeps the latest execution of each job: where it stands, whether it
was asked to stop, and whether its entry is to go once it has finished.

* `after_of_isTerminal`  nothing follows a terminal state
* `getElem?_begin`       a new execution runs, whatever was there before
* `getElem?_interrupt`   a request to stop is noted of a running execution
* `getElem?_forget`      forgetting drops an entry unless its execution runs
* `finish_of_running`    a running execution ends, and its entry goes if it is to
* `stateOf_forget`       where a forgotten execution stands -/

/-! ## States -/

namespace FlowCadence.Execution

/-- Where an execution stands. -/
inductive State where
  | pending
  | running
  | completed
  | failed
  | interrupted
  deriving DecidableEq, Repr

/-- What can happen to an execution. -/
inductive Event where
  | started
  | succeeded
  | failed
  | interrupted
  deriving DecidableEq, Repr

/-- The name of an event in a refusal. -/
def Event.name : Event → String
  | .started => "Started"
  | .succeeded => "Succeeded"
  | .failed => "Failed"
  | .interrupted => "Interrupted"

namespace State

/-- The name used in reports. -/
def label : State → String
  | .pending => "pending"
  | .running => "running"
  | .completed => "completed"
  | .failed => "failed"
  | .interrupted => "interrupted"

/-- Whether nothing more happens to the execution. -/
def isTerminal : State → Bool
  | .completed | .failed | .interrupted => true
  | .pending | .running => false

/-- The state after an event: a pending execution can start, and a running one
    can end in three ways. -/
def after : State → Event → Except Fault State
  | .pending, .started => .ok .running
  | .running, .succeeded => .ok .completed
  | .running, .failed => .ok .failed
  | .running, .interrupted => .ok .interrupted
  | s, e => .error (.conflict ("job execution cannot apply " ++ e.name ++ " while " ++ s.label))

/-- From its end on an execution takes no event. -/
theorem after_of_isTerminal {s : State} (h : s.isTerminal) (e : Event) :
    ∃ f, s.after e = .error f := by
  cases s <;> cases e <;> simp_all [isTerminal, after]

end State

/-! ## The tracker -/

/-- The latest execution of one job. -/
structure Record where
  state : State
  /-- The execution was asked to stop. -/
  interrupted : Bool
  /-- The entry goes when the execution finishes. -/
  fleeting : Bool
  deriving DecidableEq, Repr

/-- The latest execution of each job, by the job's name. -/
structure Tracker where
  records : Table Record
  deriving DecidableEq

namespace Tracker

/-- The tracker that knows of no execution. -/
def empty : Tracker := ⟨∅⟩

/-- Where the latest execution of a job stands. -/
def stateOf (t : Tracker) (name : String) : Option State := t.records[name]?.map (·.state)

/-- An execution of a job begins. -/
def begin (t : Tracker) (name : String) : Tracker :=
  ⟨t.records.insert name ⟨.running, false, false⟩⟩

/-- What happens to an execution that comes back: a request to stop counts more
    than the result. -/
def ending (interrupted succeeded : Bool) : Event :=
  if interrupted then .interrupted else if succeeded then .succeeded else .failed

/-- The execution of a job comes back.  The answer is the state it ends in, and
    the fault if the tracker held no running execution; then the result alone
    decides the state. -/
def finish (t : Tracker) (name : String) (succeeded : Bool) : Tracker × State × Option Fault :=
  let record := t.records[name]?.getD ⟨.pending, false, false⟩
  let (state, fault) : State × Option Fault :=
    match record.state.after (ending record.interrupted succeeded) with
    | .ok state => (state, none)
    | .error fault => (if succeeded then .completed else .failed, some fault)
  let records := if record.fleeting then t.records.erase name
    else t.records.insert name { record with state }
  (⟨records⟩, state, fault)

/-- The entry of a job goes, at once or when its running execution finishes. -/
def forget (t : Tracker) (name : String) : Tracker :=
  match t.records[name]? with
  | none => t
  | some record =>
    if record.state = .running then ⟨t.records.insert name { record with fleeting := true }⟩
    else ⟨t.records.erase name⟩

/-- The running execution of a job is asked to stop. -/
def interrupt (t : Tracker) (name : String) : Tracker :=
  match t.records[name]? with
  | none => t
  | some record =>
    if record.state = .running then ⟨t.records.insert name { record with interrupted := true }⟩
    else t

/-- Whether there is a running execution to ask. -/
def isRunning (t : Tracker) (name : String) : Bool := t.stateOf name = some .running

/-- A beginning makes a new entry, whatever was there. -/
theorem getElem?_begin (t : Tracker) (name other : String) :
    (t.begin name).records[other]? =
      if name = other then some ⟨.running, false, false⟩ else t.records[other]? := by
  simp [begin, Std.ExtTreeMap.getElem?_insert]

/-- A request to stop is written to an entry that runs. -/
theorem getElem?_interrupt (t : Tracker) (name other : String) :
    (t.interrupt name).records[other]? =
      if name = other then t.records[other]?.map fun record =>
        if record.state = .running then { record with interrupted := true } else record
      else t.records[other]? := by
  rw [interrupt]
  split
  · next hnone =>
    split
    · next heq => rw [← heq, hnone, Option.map_none]
    · rfl
  · next record hsome =>
    by_cases hr : record.state = .running
    · rw [if_pos hr, Table.lookUp_insert]
      split
      · next heq => rw [← heq, hsome, Option.map_some, if_pos hr]
      · rfl
    · rw [if_neg hr]
      split
      · next heq => rw [← heq, hsome, Option.map_some, if_neg hr]
      · rfl

/-- An entry that runs is to be forgotten at its end, and any other goes at once. -/
theorem getElem?_forget (t : Tracker) (name other : String) :
    (t.forget name).records[other]? =
      if name = other then t.records[other]?.bind fun record =>
        if record.state = .running then some { record with fleeting := true } else none
      else t.records[other]? := by
  rw [forget]
  split
  · next hnone =>
    split
    · next heq => rw [← heq, hnone, Option.bind_none]
    · rfl
  · next record hsome =>
    by_cases hr : record.state = .running
    · rw [if_pos hr, Table.lookUp_insert]
      split
      · next heq => rw [← heq, hsome, Option.bind_some, if_pos hr]
      · rfl
    · rw [if_neg hr, Table.lookUp_erase]
      split
      · next heq => rw [← heq, hsome, Option.bind_some, if_neg hr]
      · rfl

/-- The end of one job does not touch the entry of another. -/
theorem getElem?_finish_of_ne (t : Tracker) {name other : String} (h : name ≠ other)
    (succeeded : Bool) : (t.finish name succeeded).1.records[other]? = t.records[other]? := by
  rw [finish]
  dsimp only
  split
  · rw [Table.lookUp_erase, if_neg h]
  · rw [Table.lookUp_insert, if_neg h]

/-- A running execution ends as it was asked to, or else as its result says; the tracker
    is not out of step. -/
theorem finish_of_running {t : Tracker} {name : String} {interrupted fleeting : Bool}
    (h : t.records[name]? = some ⟨.running, interrupted, fleeting⟩) (succeeded : Bool) :
    let state : State :=
      if interrupted then .interrupted else if succeeded then .completed else .failed
    t.finish name succeeded =
      (⟨if fleeting then t.records.erase name
        else t.records.insert name ⟨state, interrupted, fleeting⟩⟩, state, none) := by
  cases interrupted <;> cases succeeded <;> simp [finish, h, ending, State.after]

/-- A request to stop leaves every execution where it stands. -/
@[simp] theorem stateOf_interrupt (t : Tracker) (name other : String) :
    (t.interrupt name).stateOf other = t.stateOf other := by
  rw [stateOf, getElem?_interrupt, stateOf]
  split
  · rw [Option.map_map]
    congr 1
    funext record
    rw [Function.comp_apply]
    split <;> rfl
  · rfl

/-- An entry that is to be forgotten can be read only while it runs. -/
theorem stateOf_forget (t : Tracker) (name : String) :
    (t.forget name).stateOf name = if t.isRunning name then some .running else none := by
  cases h : t.records[name]? with
  | none => simp [forget, h, isRunning, stateOf]
  | some record =>
    by_cases hr : record.state = .running
    · simp [forget, h, hr, isRunning, stateOf]
    · simp [forget, h, hr, isRunning, stateOf]

end Tracker

end FlowCadence.Execution
