import FlowCadence.Node.Busy
import FlowCadence.Proofs.Node.Effect
/-! # What every write keeps

A node writes to its registry and to the triggers in few ways: it adds a flow, it
unschedules a uri, and it installs a trigger that it was asked for.  Everything else that it
does changes the flag, the catalog and the trace at most.  So a property that is kept in
these cases is kept by every stage of an activity, by every command and by every run.

## Key results

* `Invariant.activity_step`, `Invariant.move`: what every write keeps, every move keeps
* `Invariant.run`: so does every run, where that holds whatever the collaborators answer -/

namespace FlowCadence.Node

variable {s : Setup} {n : Node} {P : Node → Prop}

/-- A property of nodes that every write keeps. -/
structure Invariant (s : Setup) (P : Node → Prop) : Prop where
  /-- The flag, the catalog and the trace do not matter to it. -/
  noted : ∀ {n : Node} (active : Bool) (catalog : Catalog) (trace : List Event),
    P n → P { n with active, catalog, trace }
  addFlow : ∀ {n : Node} (f : Flow), P n → P (n.addFlow s f)
  unschedule : ∀ {n : Node} (uri : String), P n → P (n.unschedule s uri)
  schedule : ∀ {n : Node} (config : JobConfig) (listener : Bool), P n →
    P (n.schedule s config listener).1

namespace Invariant

/-! ### Operations -/

/-- Telling the others of an added flow keeps it, as that goes on record and nowhere else. -/
theorem forwardAdded (hP : Invariant s P) (h : P n) (uri : String) : P (n.forwardAdded s uri) := by
  obtain ⟨trace, heq⟩ := forwardAdded_eq s uri n
  rw [heq]
  exact hP.noted n.active n.catalog trace h

/-- So does telling them of a removal. -/
theorem forwardRemoved (hP : Invariant s P) (h : P n) (uri version : String) :
    P (n.forwardRemoved s uri version) := by
  obtain ⟨trace, heq⟩ := forwardRemoved_eq s uri version n
  rw [heq]
  exact hP.noted n.active n.catalog trace h

/-- Adding a spec keeps it: a flow is added, and a topology is nothing to a node. -/
theorem add (hP : Invariant s P) (h : P n) (spec : Spec) : P (n.add s spec) := by
  cases spec with
  | flow f => exact hP.addFlow f h
  | topology t => exact h

/-- Deleting a flow keeps it: a node that stands aside forwards the deletion, and another one
unschedules the flow. -/
theorem delete (hP : Invariant s P) (h : P n) (uri version : String) :
    P (n.delete s uri version) := by
  rw [Node.delete]
  split
  · exact hP.forwardRemoved h uri version
  · exact hP.unschedule uri h

/-- Updating a flow keeps it. -/
theorem update (hP : Invariant s P) (h : P n) (spec : Spec) : P (n.update s spec) := by
  rw [Node.update]
  split
  · exact h
  · split
    -- Two notices are sent, or the flow is unscheduled and added.
    · exact hP.forwardAdded (hP.forwardRemoved h _ _) _
    · exact hP.add (hP.unschedule _ h) spec

/-- Restoring the schedule keeps it. -/
theorem restore (hP : Invariant s P) (h : P n) : P (n.restore s) := by
  have hlist : P (n.call .list) := hP.noted n.active n.catalog _ h
  exact restore_keeps h hlist (fun _ => hP.noted n.active n.catalog _ hlist)
    fun _ spec hm => hP.add hm spec

/-- A change of leadership keeps it. -/
theorem lead (hP : Invariant s P) (h : P n) (active : Bool) : P (n.lead s active) := by
  have hflag : P { n with active } := hP.noted active n.catalog n.trace h
  rw [Node.lead]
  split
  · exact h
  · -- A term begins with additions, and it ends with deletions.
    split
    · exact hP.restore hflag
    · exact List.foldlRecOn (motive := P) n.registry.toList _ hflag
        fun _ hm _ _ => hP.delete hm _ _

/-! ### Activities and runs -/

/-- A stage of an activity keeps it, by what it may come to. -/
theorem activity_step (hP : Invariant s P) (h : P n) (a : Activity) : P (a.step s n).1 := by
  have houtcome := a.outcome_step s n
  generalize (a.step s n).1 = m at houtcome ⊢
  cases houtcome with
  | noted catalog trace => exact hP.noted n.active catalog trace h
  | added spec => exact hP.add h spec
  | updated spec => exact hP.update h spec
  | deleted uri version => exact hP.delete h uri version
  | unscheduled uri _ => exact hP.unschedule uri h

/-- Taking up a command keeps it. -/
theorem begin (hP : Invariant s P) (h : P n) (c : Command) : P (c.begin s n).1 := by
  -- What is not carried out at once only begins an activity.
  cases c with
  | lead active => exact hP.lead h active
  | schedule config listener => exact hP.schedule config listener h
  | change _ | notice _ | put _ | delete _ => exact h

/-- A move takes up a command or carries out a stage. -/
theorem move {b : Busy} (hP : Invariant s P) (h : P b.node) (move : Move) :
    P (b.step s move).node := by
  cases move with
  | accept c => exact hP.begin h c
  | advance place =>
    rw [Busy.step]
    split
    · exact h
    · exact hP.activity_step h _

/-- What every write keeps, whatever the collaborators answer, every run keeps. -/
theorem run {b : Busy} (hP : ∀ replies, Invariant { s with replies } P) (h : P b.node)
    (turns : List Turn) : P (b.run s turns).node :=
  Busy.run_keeps (P := fun b => P b.node) (fun replies _ move hb => (hP replies).move hb move)
    h turns

end Invariant

end FlowCadence.Node
