import FlowCadence.Proofs.Node.Invariant
/-! # Registered flows are backed by triggers

A node writes to its registry and to the engine in separate steps, and the engine
may fail any of them.  Still no flow stays registered without a trigger that runs
it: a flow leaves the registry before its trigger is removed, and a flow whose
trigger cannot be installed leaves the registry again.

## Key results

* `Backed.addFlow`, `Backed.unschedule`, `Backed.schedule`: each write keeps the flows backed
* `Backed.move`: so does every move
* `backed_run`: after every run, whatever the collaborators answer -/

namespace FlowCadence.Node

/-- Every registered flow has a trigger that is named by its uri and runs that flow. -/
def Backed (n : Node) : Prop :=
  ∀ (uri : String) (f : Flow), n.registry[uri]? = some f →
    ∃ job, n.jobs[uri]? = some job ∧ job.name = uri ∧ job.payload.flow = some f

namespace Backed

variable {s : Setup} {n m : Node}

/-- A node that was just made has no flow registered. -/
theorem initial : Backed .initial := by
  intro uri f h
  simp [Node.initial] at h

/-- Nothing is registered where no trigger is. -/
theorem registry_eq_none (h : n.Backed) {uri : String} (hj : n.jobs[uri]? = none) :
    n.registry[uri]? = none := by
  -- A flow that is registered would have its trigger.
  cases hf : n.registry[uri]? with
  | none => rfl
  | some f =>
    obtain ⟨job, hjob, _⟩ := h uri f hf
    rw [hj] at hjob
    cases hjob

/-- Whether the flows are backed is read off the two tables. -/
theorem of_tables (h : n.Backed) (hr : m.registry = n.registry) (hj : m.jobs = n.jobs) :
    m.Backed := by
  intro uri f hf
  rw [hr] at hf
  rw [hj]
  exact h uri f hf

/-- A flow may leave the registry, if the triggers of the others stay. -/
theorem of_erase (h : n.Backed) {uri : String} (hr : m.registry = n.registry.erase uri)
    (hj : ∀ a, uri ≠ a → m.jobs[a]? = n.jobs[a]?) : m.Backed := by
  intro a f hf
  rw [hr, Table.lookUp_erase] at hf
  -- The flow that has left needs no trigger, and the others have theirs.
  split at hf
  · cases hf
  · next hne =>
    rw [hj a hne]
    exact h a f hf

/-- A trigger that takes the place of another runs the flow that is registered. -/
theorem schedule (h : n.Backed) (config : JobConfig) (listener : Bool) :
    (n.schedule s config listener).1.Backed := by
  have hr : (n.schedule s config listener).1.registry = n.registry := by
    obtain ⟨_, _, heq⟩ := schedule_eq s config listener n
    rw [heq]
  -- The trigger was installed under the name of its job, or nothing has changed.
  rcases schedule_cases s config listener n with ⟨_, sch, _, hj⟩ | ⟨_, _, hj⟩
  · intro uri f hf
    rw [hr] at hf
    rw [hj, Table.lookUp_insert]
    split
    · next heq =>
      subst heq
      exact ⟨_, rfl, rfl, hf⟩
    · exact h uri f hf
  · exact h.of_tables hr hj

/-- An added flow gets its place in the registry together with its trigger. -/
theorem addFlow (h : n.Backed) (f : Flow) : (n.addFlow s f).Backed := by
  -- Nothing changed, or the flow is in both tables, or it has left the registry.
  rcases addFlow_cases s f n with ⟨hr, hj⟩ | ⟨sch, _, hr, hj⟩ | ⟨hr, hj⟩
  · exact h.of_tables hr hj
  · intro uri g hg
    rw [hr, Table.lookUp_insert] at hg
    rw [hj, Table.lookUp_insert]
    -- Its own uri has the new trigger, and under the others nothing changed.
    split
    · next heq =>
      rw [if_pos heq] at hg
      exact ⟨_, rfl, heq, hg⟩
    · next hne =>
      rw [if_neg hne] at hg
      exact h uri g hg
  · exact h.of_erase hr fun a _ => by rw [hj]

/-- A flow leaves the registry whether or not its trigger can be removed. -/
theorem unschedule (h : n.Backed) (uri : String) : (n.unschedule s uri).Backed :=
  h.of_erase (registry_unschedule s uri n) fun _ hne => jobs_unschedule_of_ne hne

/-- What is written leaves the registered flows backed. -/
theorem invariant (s : Setup) : Invariant s Backed where
  noted _ _ _ h := h.of_tables rfl rfl
  addFlow f h := h.addFlow f
  unschedule uri h := h.unschedule uri
  schedule config listener h := h.schedule config listener

/-! ### Runs -/

/-- Every move keeps the flows backed. -/
theorem move {b : Busy} (h : b.node.Backed) (move : Move) : (b.step s move).node.Backed :=
  (invariant s).move h move

/-- So does every run, whatever the collaborators answer. -/
theorem run {b : Busy} (h : b.node.Backed) (turns : List Turn) : (b.run s turns).node.Backed :=
  Invariant.run (fun replies => invariant { s with replies }) h turns

/-- A node that can be found in some run keeps its flows backed. -/
theorem of_reachable (h : Reachable s n) : n.Backed := by
  obtain ⟨turns, rfl⟩ := h
  exact run initial turns

end Backed

/-- However its commands come in and their stages are mixed, and whatever its
    collaborators answer, a node keeps no flow registered that lacks its trigger. -/
theorem backed_run (s : Setup) (turns : List Turn) : (Busy.start.run s turns).node.Backed :=
  Backed.run Backed.initial turns

end FlowCadence.Node
