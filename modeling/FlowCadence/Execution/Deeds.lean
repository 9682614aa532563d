import FlowCadence.Execution.Tracker
/-! # What is done to a tracker

Firings begin and finish, somebody asks one of them to stop, and a job that is not
scheduled any more is forgotten.  All of this may be done in any order and to any job, and
each of these deeds is done at one go.

What has been done so far is kept as a list with the latest deed first, so that the deeds
since the last beginning of an execution are its first ones. -/

namespace FlowCadence.Execution

/-- What can be done to a tracker. -/
inductive Deed where
  | begin (name : String)
  | finish (name : String) (succeeded : Bool)
  | interrupt (name : String)
  | forget (name : String)
  deriving DecidableEq, Repr

namespace Deed

/-- The job that the deed is about. -/
def name : Deed → String
  | .begin name | .finish name _ | .interrupt name | .forget name => name

/-- What a deed is answered. -/
inductive Answer where
  | nothing
  /-- The execution has ended in this state; the fault says that it was not known to run. -/
  | ended (state : State) (fault : Option Fault)
  /-- Whether there is a running execution that was asked to stop. -/
  | heard (running : Bool)
  deriving DecidableEq, Repr

end Deed

namespace Tracker

/-- The tracker after a deed, and the answer. -/
def act (t : Tracker) : Deed → Tracker × Deed.Answer
  | .begin name => (t.begin name, .nothing)
  | .finish name succeeded =>
    let (t, state, fault) := t.finish name succeeded
    (t, .ended state fault)
  | .interrupt name => (t.interrupt name, .heard (t.isRunning name))
  | .forget name => (t.forget name, .nothing)

/-- A new tracker after deeds, the latest of them first. -/
def after : (past : List Deed) → Tracker
  | [] => .empty
  | d :: past => ((after past).act d).1

/-- No deed touches the entry of another job. -/
theorem getElem?_act_of_ne (t : Tracker) {d : Deed} {name : String} (h : d.name ≠ name) :
    (t.act d).1.records[name]? = t.records[name]? := by
  cases d with
  | begin other => exact (getElem?_begin t other name).trans (if_neg h)
  | finish other succeeded => exact getElem?_finish_of_ne t h succeeded
  | interrupt other => exact (getElem?_interrupt t other name).trans (if_neg h)
  | forget other => exact (getElem?_forget t other name).trans (if_neg h)

/-- A deed to one job does not touch the state of another. -/
theorem stateOf_act_of_ne (t : Tracker) {d : Deed} {name : String} (h : d.name ≠ name) :
    (t.act d).1.stateOf name = t.stateOf name := by
  rw [stateOf, getElem?_act_of_ne t h, stateOf]

end Tracker

/-- An execution of the job is under way: it has begun, and it has not finished since. -/
def Underway (name : String) (past : List Deed) : Prop :=
  ∃ later earlier, past = later ++ .begin name :: earlier ∧
    ∀ succeeded, .finish name succeeded ∉ later

/-- The deeds since an execution of the job has begun last, the latest first. -/
def sinceBegin (name : String) (past : List Deed) : List Deed :=
  past.takeWhile (· ≠ .begin name)

/-- The deed may be done now: an execution begins when none of the job is under way, and
    only one that is under way finishes. -/
def Deed.Fits (past : List Deed) : Deed → Prop
  | .begin name => ¬ Underway name past
  | .finish name _ => Underway name past
  | .interrupt _ | .forget _ => True

/-- Executions of one job do not overlap, and what finishes has begun. -/
def Proper : (past : List Deed) → Prop
  | [] => True
  | d :: past => d.Fits past ∧ Proper past

/-- Before any deed nothing is under way. -/
theorem not_underway_nil (name : String) : ¬ Underway name [] := by
  rintro ⟨later, earlier, h, -⟩
  simp at h

/-- An execution is under way if it begins, or was under way before and does not finish. -/
theorem underway_cons_iff {name : String} {d : Deed} {past : List Deed} :
    Underway name (d :: past) ↔
      d = .begin name ∨ ((∀ succeeded, d ≠ .finish name succeeded) ∧ Underway name past) := by
  constructor
  · rintro ⟨later, earlier, h, hopen⟩
    cases later with
    | nil => exact .inl (List.cons.inj h).1
    | cons first later =>
      obtain ⟨rfl, rfl⟩ := List.cons.inj h
      refine .inr ⟨fun succeeded heq => ?_, later, earlier, rfl, fun succeeded hmem => ?_⟩
      · exact hopen succeeded (heq ▸ List.mem_cons_self)
      · exact hopen succeeded (List.mem_cons_of_mem _ hmem)
  · rintro (rfl | ⟨hd, later, earlier, rfl, hopen⟩)
    · exact ⟨[], past, rfl, fun _ => List.not_mem_nil⟩
    · refine ⟨d :: later, earlier, rfl, fun succeeded hmem => ?_⟩
      rcases List.mem_cons.1 hmem with heq | hmem
      · exact hd succeeded heq.symm
      · exact hopen succeeded hmem

/-- Whether an execution is under way is a matter of going through the deeds. -/
instance decidableUnderway (name : String) : (past : List Deed) → Decidable (Underway name past)
  | [] => .isFalse (not_underway_nil name)
  | d :: past =>
    have := decidableUnderway name past
    decidable_of_iff (d = .begin name ∨
      ((∀ succeeded, d ≠ .finish name succeeded) ∧ Underway name past)) underway_cons_iff.symm

instance (past : List Deed) : DecidablePred (Deed.Fits past)
  | .begin name => inferInstanceAs (Decidable (¬ Underway name past))
  | .finish name _ => inferInstanceAs (Decidable (Underway name past))
  | .interrupt _ | .forget _ => inferInstanceAs (Decidable True)

instance decidableProper : (past : List Deed) → Decidable (Proper past)
  | [] => inferInstanceAs (Decidable True)
  | d :: past =>
    have := decidableProper past
    inferInstanceAs (Decidable (d.Fits past ∧ Proper past))

end FlowCadence.Execution
