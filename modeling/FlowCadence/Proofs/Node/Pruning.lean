import FlowCadence.Node.Encounter
import FlowCadence.Proofs.Node.Effect
/-! # Entries of unscheduled flows

Unscheduling a flow forgets its execution: the entry goes at once, or when a running
execution finishes.  A firing of the flow that is under way at the same time begins a new
execution at a stage of its own.  If that comes before the entry is forgotten, the entry goes
in the end.  If the entry is forgotten first, the firing makes a new one that nobody forgets.

## Key results

* `Duty.Begun.step`: what a firing does to the tracker once its execution has begun
* `Prunable.fire`, `Prunable.depart`: what each stage keeps as long as nothing is forgotten too
  soon
* `Stranded.fire`: an execution that was forgotten before it began leaves its entry behind
* `pruned_iff`: when no entry is left in the end -/

namespace FlowCadence

/-! ### Entries -/

namespace Execution.Tracker

variable {t : Tracker} {name : String}

/-- Where the latest execution of a job stands, and whether its entry is to go. -/
def entry (t : Tracker) (name : String) : Option (State × Bool) :=
  t.records[name]?.map fun record => (record.state, record.fleeting)

/-- The state of a job is the first half of its entry. -/
theorem stateOf_eq_map_entry (t : Tracker) (name : String) :
    t.stateOf name = (t.entry name).map Prod.fst := by
  rw [entry, Option.map_map]
  rfl

/-- The entry of an execution that begins says that it runs and is to stay. -/
theorem entry_begin (t : Tracker) (name : String) :
    (t.begin name).entry name = some (.running, false) := by
  rw [entry, getElem?_begin, if_pos rfl]
  rfl

/-- A request to stop does not decide what becomes of an entry. -/
theorem entry_interrupt (t : Tracker) (name other : String) :
    (t.interrupt name).entry other = t.entry other := by
  rw [entry, getElem?_interrupt, entry]
  split
  · rw [Option.map_map]
    congr 1
    funext record
    rw [Function.comp_apply]
    -- A running execution is marked, and its entry says as much as before.
    split <;> rfl
  · rfl

/-- What becomes of an entry when it is forgotten. -/
def afterForget (entry : Option (State × Bool)) : Option (State × Bool) :=
  entry.bind fun p => if p.1 = .running then some (.running, true) else none

/-- Forgetting a job takes away its entry, or marks it. -/
theorem entry_forget (t : Tracker) (name : String) :
    (t.forget name).entry name = afterForget (t.entry name) := by
  rw [entry, getElem?_forget, if_pos rfl, afterForget, entry]
  cases t.records[name]? with
  | none => rfl
  | some record =>
    -- A job has an entry, and what matters is whether its execution runs.
    rw [Option.bind_some, Option.map_some, Option.bind_some]
    split
    · next hrunning => rw [Option.map_some, hrunning]
    · rfl

/-- The entry of a running execution goes when it finishes if it is to, and stays otherwise. -/
theorem entry_finish {fleeting : Bool} (h : t.entry name = some (.running, fleeting))
    (succeeded : Bool) : ∃ state, state ≠ .running ∧
      (t.finish name succeeded).1.entry name = if fleeting then none else some (state, false) := by
  obtain ⟨⟨state, interrupted, goes⟩, hrecord, heq⟩ := Option.map_eq_some_iff.1 h
  obtain ⟨rfl, rfl⟩ : state = .running ∧ goes = fleeting := Prod.mk.inj heq
  rw [finish_of_running hrecord]
  refine ⟨if interrupted then .interrupted else if succeeded then .completed else .failed, ?_, ?_⟩
  -- The final state is none of running.
  · cases interrupted <;> cases succeeded <;> decide
  -- The entry goes if it was marked, and otherwise it is written over.
  · cases goes with
    | true =>
      rw [if_pos rfl, if_pos rfl, entry, Table.lookUp_erase, if_pos rfl]
      rfl
    | false =>
      rw [if_neg Bool.false_ne_true, if_neg Bool.false_ne_true, entry, Table.lookUp_insert,
        if_pos rfl]
      rfl

end Execution.Tracker

namespace Node

open Execution (Tracker)

variable {s : Setup} {n : Node} {uri : String}

/-! ### Stages of a firing -/

/-- The execution of a firing of the flow has begun, and it has not finished yet. -/
inductive Duty.Begun (uri : String) : Duty → Prop
  | ready (config : JobConfig) (listener : Bool) :
    Begun uri (.stage (.ready (.firing uri) config listener))
  | chosen (h : Handed) : Begun uri (.chosen (.firing uri) h)
  | underway (h : Handed) : Begun uri (.stage (.underway (.firing uri) h))
  | returned (result : Except Failure Unit) : Begun uri (.stage (.returned (.firing uri) result))

/-- A firing is refused where the node stands aside. -/
theorem Duty.step_offered (s : Setup) (name : String) (payload : Payload) (n : Node) :
    (Duty.stage (.offered name payload)).step s n =
      (n, if n.aside s then none else some (.stage (.accepted name payload))) := by
  cases haside : n.aside s <;> simp [Duty.step, Execution.Run.step, runner, haside]

/-- Telling a listener of the result concerns no execution. -/
theorem takeBack_executions (s : Setup) (h : Handed) (n : Node) :
    (n.takeBack s h).1.executions = n.executions := by
  rw [takeBack]
  cases s.replies.run n h.flow <;> cases h.listener <;> rfl

/-- Of what a firing does from there on, only its end touches the tracker. -/
theorem Duty.Begun.step {d : Duty} (h : d.Begun uri) (s : Setup) (n : Node) :
    (∃ rest, (d.step s n).2 = some rest ∧ rest.Begun uri ∧
      (d.step s n).1.executions = n.executions) ∨
    ((d.step s n).2 = none ∧ ∃ succeeded,
      (d.step s n).1.executions = (n.executions.finish uri succeeded).1) := by
  cases h with
  | ready config listener =>
    -- A flow is found for the job, or the run returns in vain.
    rw [Duty.step]
    split
    · next h _ => exact .inl ⟨_, rfl, .chosen h, rfl⟩
    · exact .inl ⟨_, rfl, .returned _, rfl⟩
  | chosen h => exact .inl ⟨_, rfl, .underway h, rfl⟩
  | underway h => exact .inl ⟨_, rfl, .returned _, takeBack_executions s h n⟩
  -- The end of the run finishes the execution, and alerts change nothing about that.
  | returned result =>
    refine .inr ⟨rfl, Execution.succeeded result, ?_⟩
    show (Execution.Run.close (runner s) result (.firing uri) n).1.executions = _
    cases hfinish : n.executions.finish uri (Execution.succeeded result) with
    | mk executions rest =>
      obtain ⟨state, fault⟩ := rest
      simp only [Execution.Run.close, runner, hfinish]
      cases fault <;> cases result <;> rfl

/-! ### What each stage keeps -/

/-- The entry is of an execution that does not run. -/
def Idle (entry : Option (Execution.State × Bool)) : Prop := ∀ p ∈ entry, p.1 ≠ .running

/-- The entry of the flow is as it should be, by what is left of the firing and whether the
    entry was forgotten. -/
inductive Prunable (uri : String) : Option Duty → Option (Execution.State × Bool) → Bool → Prop
  | offered {entry forgotten} (payload : Payload) (hidle : Idle entry)
    (hgone : forgotten = true → entry = none) :
    Prunable uri (some (.stage (.offered uri payload))) entry forgotten
  | accepted {entry forgotten} (payload : Payload) (hidle : Idle entry) :
    Prunable uri (some (.stage (.accepted uri payload))) entry forgotten
  /-- The entry of a running execution goes if it was forgotten since it began. -/
  | begun {d forgotten} (hd : d.Begun uri) :
    Prunable uri (some d) (some (.running, forgotten)) forgotten
  | ended {entry forgotten} (hidle : Idle entry) (hgone : forgotten = true → entry = none) :
    Prunable uri none entry forgotten

/-- The entry was forgotten before the execution began, and it is going to stay. -/
inductive Stranded (uri : String) : Option Duty → Option (Execution.State × Bool) → Prop
  | accepted {entry} (payload : Payload) :
    Stranded uri (some (.stage (.accepted uri payload))) entry
  | begun {d} (hd : d.Begun uri) : Stranded uri (some d) (some (.running, false))
  | ended (p : Execution.State × Bool) : Stranded uri none (some p)

/-- The firing was accepted, and its execution has not begun. -/
def Duty.isAccepted : Duty → Bool
  | .stage (.accepted ..) => true
  | _ => false

variable {d : Duty} {firing : Option Duty} {entry : Option (Execution.State × Bool)}
  {forgotten : Bool}

/-- Where there is no entry no execution runs. -/
theorem idle_none : Idle none := nofun

/-- An entry of an execution that does not run goes as soon as it is forgotten. -/
theorem Idle.afterForget (h : Idle entry) : Tracker.afterForget entry = none := by
  cases entry with
  | none => rfl
  | some p => exact if_neg (h p rfl)

/-- A stage of the firing keeps the entry as it should be, if its execution does not begin after the
entry was forgotten. -/
theorem Prunable.fire (h : Prunable uri (some d) (n.executions.entry uri) forgotten)
    (hlate : d.isAccepted = true → forgotten = false) (s : Setup) :
    Prunable uri (d.step s n).2 ((d.step s n).1.executions.entry uri) forgotten := by
  generalize hentry : n.executions.entry uri = entry at h
  cases h with
  -- The firing is refused or accepted, and the entry stays.
  | offered payload hidle hgone =>
    subst hentry
    rw [Duty.step_offered]
    dsimp only
    split
    · exact .ended hidle hgone
    · exact .accepted payload hidle
  -- The execution begins, and nothing was forgotten before.
  | accepted payload hidle =>
    obtain rfl := hlate rfl
    show Prunable uri _ ((n.executions.begin uri).entry uri) false
    rw [Tracker.entry_begin]
    exact .begun (.ready _ _)
  | begun hd =>
    -- Until the execution finishes the entry keeps its mark, and then the mark decides.
    rcases hd.step s n with ⟨rest, hrest, hbegun, hsame⟩ | ⟨hrest, succeeded, hfinish⟩
    · rw [hrest, hsame, hentry]
      exact .begun hbegun
    · rw [hrest, hfinish]
      obtain ⟨state, hstate, heq⟩ := Tracker.entry_finish hentry succeeded
      rw [heq]
      -- The mark decides whether the entry goes or holds the final state.
      cases forgotten with
      | true => exact .ended idle_none fun _ => rfl
      | false =>
        refine .ended (fun p hp => ?_) nofun
        obtain rfl := Option.some.inj hp
        exact hstate

/-- An entry that was made too late stays at every stage of the firing. -/
theorem Stranded.fire (h : Stranded uri (some d) (n.executions.entry uri)) (s : Setup) :
    Stranded uri (d.step s n).2 ((d.step s n).1.executions.entry uri) := by
  generalize hentry : n.executions.entry uri = entry at h
  cases h with
  -- The execution begins anew, without a mark.
  | accepted payload =>
    show Stranded uri _ ((n.executions.begin uri).entry uri)
    rw [Tracker.entry_begin]
    exact .begun (.ready _ _)
  -- It finishes without a mark, so its entry is kept.
  | begun hd =>
    rcases hd.step s n with ⟨rest, hrest, hbegun, hsame⟩ | ⟨hrest, succeeded, hfinish⟩
    · rw [hrest, hsame, hentry]
      exact .begun hbegun
    · rw [hrest, hfinish]
      obtain ⟨state, -, heq⟩ := Tracker.entry_finish hentry succeeded
      rw [heq]
      exact .ended _

/-- The entry was forgotten, by what is left of the unscheduling. -/
def Departure.hasForgotten : Option Departure → Bool
  | some .ahead | some .struck => false
  | some .forgotten | none => true

/-- A trigger has nothing to do with executions. -/
theorem removeTrigger_executions (s : Setup) (uri : String) (n : Node) :
    (n.removeTrigger s uri).executions = n.executions := by
  obtain ⟨_, _, h⟩ := removeTrigger_eq s uri n
  rw [h]

/-- The entry is forgotten, once. -/
theorem Prunable.forget (h : Prunable uri firing entry false) :
    Prunable uri firing (Tracker.afterForget entry) true := by
  -- It goes at once, or it is marked while the execution runs.
  cases h with
  | offered payload hidle _ =>
    rw [hidle.afterForget]
    exact .offered payload idle_none fun _ => rfl
  | accepted payload hidle =>
    rw [hidle.afterForget]
    exact .accepted payload idle_none
  | begun hd => exact .begun hd
  | ended hidle _ =>
    rw [hidle.afterForget]
    exact .ended idle_none fun _ => rfl

/-- A stage of the unscheduling keeps the entry as it should be. -/
theorem Prunable.depart {c : Departure} (s : Setup)
    (h : Prunable uri firing (n.executions.entry uri) (Departure.hasForgotten (some c))) :
    Prunable uri firing ((c.step s uri n).1.executions.entry uri)
      (Departure.hasForgotten (c.step s uri n).2) := by
  -- Only the second stage touches the entry.
  cases c with
  | ahead => exact h
  | struck =>
    show Prunable uri firing ((n.executions.forget uri).entry uri) true
    rw [Tracker.entry_forget]
    exact h.forget
  | forgotten =>
    show Prunable uri firing ((n.removeTrigger s uri).executions.entry uri) true
    rw [removeTrigger_executions]
    exact h

namespace Encounter

/-- The entry was forgotten, the firing was accepted, and its execution has not begun. -/
def isLate (e : Encounter) : Bool :=
  e.firing.any Duty.isAccepted && Departure.hasForgotten e.departure

/-- Others do not begin or finish an execution of the flow, and they do not forget it. -/
def Turn.Spares (uri : String) (turn : Turn) : Prop :=
  match turn.move with
  | .fire | .depart => True
  | .meanwhile change => ∀ n, (change n).executions.entry uri = n.executions.entry uri

/-- To stop the firing of any trigger is such a change. -/
theorem Turn.spares_interrupt (replies : Replies) (s : Setup) (uri name : String) :
    Turn.Spares uri ⟨replies, .meanwhile fun n => (n.interrupt s name).1⟩ := by
  intro n
  dsimp only
  rw [interrupt]
  split
  · rfl
  · split
    · exact Tracker.entry_interrupt _ _ _
    · rfl

/-- The entry is going to be gone in the end, unless it is forgotten too soon. -/
def IsPrunable (uri : String) (e : Encounter) : Prop :=
  Node.Prunable uri e.firing (e.node.executions.entry uri) (Departure.hasForgotten e.departure)

/-- The entry is going to be there in the end. -/
structure IsStranded (uri : String) (e : Encounter) : Prop where
  forgotten : Departure.hasForgotten e.departure = true
  stays : Node.Stranded uri e.firing (e.node.executions.entry uri)

/-- A turn keeps the entry as it should be, unless it is late already. -/
theorem IsPrunable.step {e : Encounter} (h : e.IsPrunable uri) (hlate : e.isLate = false)
    {turn : Turn} (hturn : turn.Spares uri) : (e.step s uri turn.move).IsPrunable uri := by
  obtain ⟨replies, move⟩ := turn
  obtain ⟨n, firing, departure⟩ := e
  cases move with
  | fire =>
    cases firing with
    | none => exact h
    | some d =>
      simp only [Encounter.step]
      -- The firing comes before the entry is forgotten, as the encounter is not late.
      split
      · exact h
      · refine Node.Prunable.fire h (fun haccepted => ?_) s
        simpa [isLate, haccepted] using hlate
  | depart =>
    cases departure with
    | none => exact h
    | some c => exact Node.Prunable.depart s h
  -- Others spare the entry of the flow.
  | meanwhile change =>
    show Node.Prunable uri firing ((change n).executions.entry uri) _
    rw [hturn n]
    exact h

/-- Once it is late, the entry is going to stay. -/
theorem IsStranded.of_isLate {e : Encounter} (h : e.IsPrunable uri) (hlate : e.isLate = true) :
    e.IsStranded uri := by
  obtain ⟨n, firing, departure⟩ := e
  obtain ⟨haccepted, hforgotten⟩ := Bool.and_eq_true_iff.1 hlate
  refine ⟨hforgotten, ?_⟩
  have hprunable : Node.Prunable uri firing (n.executions.entry uri) _ := h
  dsimp only
  generalize n.executions.entry uri = entry at hprunable ⊢
  -- Only a firing that was accepted and has not begun can be late.
  cases hprunable with
  | offered payload _ _ => cases haccepted
  | accepted payload _ => exact .accepted payload
  | begun hd => cases hd <;> cases haccepted
  | ended _ _ => cases haccepted

/-- What is going to stay does so whatever turn comes next. -/
theorem IsStranded.step {e : Encounter} (h : e.IsStranded uri) {turn : Turn}
    (hturn : turn.Spares uri) : (e.step s uri turn.move).IsStranded uri := by
  obtain ⟨replies, move⟩ := turn
  obtain ⟨n, firing, departure⟩ := e
  cases move with
  | fire =>
    cases firing with
    | none => exact h
    | some d =>
      simp only [Encounter.step]
      split
      · exact h
      · exact ⟨h.forgotten, h.stays.fire s⟩
  | depart =>
    cases departure with
    | none => exact h
    | some c =>
      -- What is left of the unscheduling is its trigger.
      obtain rfl : c = .forgotten := by
        cases c with
        | ahead | struck => cases h.forgotten
        | forgotten => rfl
      refine ⟨rfl, ?_⟩
      show Node.Stranded uri firing ((n.removeTrigger s uri).executions.entry uri)
      rw [removeTrigger_executions]
      exact h.stays
  -- Others spare the entry of the flow.
  | meanwhile change =>
    refine ⟨h.forgotten, ?_⟩
    show Node.Stranded uri firing ((change n).executions.entry uri)
    rw [hturn n]
    exact h.stays

/-! ### Whole encounters -/

/-- What is going to stay does so to the end. -/
theorem IsStranded.run {e : Encounter} (h : e.IsStranded uri) {turns : List Turn}
    (hturns : ∀ turn ∈ turns, turn.Spares uri) : (e.run s uri turns).IsStranded uri :=
  List.foldlRecOn (motive := IsStranded uri) turns _ h fun _ he turn hturn =>
    he.step (s := { s with replies := turn.replies }) (hturns turn hturn)

/-- The entry is gone in the end unless it was forgotten too soon. -/
theorem IsPrunable.entry_eq_none_iff {e : Encounter} (h : e.IsPrunable uri) {turns : List Turn}
    (hturns : ∀ turn ∈ turns, turn.Spares uri) (hover : (e.run s uri turns).isOver = true) :
    (e.run s uri turns).node.executions.entry uri = none ↔
      ∀ k, (e.run s uri (turns.take k)).isLate = false := by
  -- The first moment at which the entry is forgotten too soon decides.
  induction turns generalizing e with
  -- Nothing is left to happen, so the entry was forgotten and is gone.
  | nil =>
    obtain ⟨n, firing, departure⟩ := e
    obtain ⟨hfiring, hdeparture⟩ := Bool.and_eq_true_iff.1 hover
    obtain rfl := Option.isNone_iff_eq_none.1 hfiring
    obtain rfl := Option.isNone_iff_eq_none.1 hdeparture
    cases (h : Node.Prunable uri none _ true) with
    | ended _ hgone =>
      refine iff_of_true (hgone rfl) fun k => ?_
      rw [List.take_nil]
      rfl
  | cons turn turns ih =>
    have hrest : ∀ t ∈ turns, t.Spares uri := fun t ht => hturns t (List.mem_cons_of_mem _ ht)
    cases hlate : e.isLate with
    | true =>
      -- It was forgotten too soon: an entry that is to stay is there in the end.
      refine iff_of_false (fun hnone => ?_) fun hno => Bool.false_ne_true ((hno 0).symm.trans hlate)
      have hstranded := (IsStranded.of_isLate h hlate).run (s := s) hturns
      obtain ⟨hfiring, -⟩ := Bool.and_eq_true_iff.1 hover
      have hstays := hstranded.stays
      rw [Option.isNone_iff_eq_none.1 hfiring, hnone] at hstays
      cases hstays
    -- Not yet, so the rest of the turns decides.
    | false =>
      have hnext := h.step (s := { s with replies := turn.replies }) hlate
        (hturns turn List.mem_cons_self)
      refine (ih hnext hrest hover).trans ⟨fun hno k => ?_, fun hno k => hno (k + 1)⟩
      cases k with
      | zero => exact hlate
      | succ k => exact hno k

/-- A trigger fires when no execution of its flow runs, and the flow is unscheduled; the stages
    come in any order, and others change the node in between.  When both are over, the entry
    of the flow is gone exactly if at no moment it was forgotten already and the firing was
    accepted but its execution had not begun. -/
theorem pruned_iff (s : Setup) {uri : String} (payload : Payload) {n : Node}
    (hidle : n.executions.stateOf uri ≠ some .running) {turns : List Turn}
    (hturns : ∀ turn ∈ turns, turn.Spares uri)
    (hover : ((start uri payload n).run s uri turns).isOver = true) :
    ((start uri payload n).run s uri turns).node.executions.stateOf uri = none ↔
      ∀ k, ((start uri payload n).run s uri (turns.take k)).isLate = false := by
  -- At the start the flow has no running execution and nothing was forgotten.
  have hprunable : (start uri payload n).IsPrunable uri := by
    refine .offered payload (fun p hp hrunning => hidle ?_) nofun
    have hentry : n.executions.entry uri = some p := hp
    rw [Tracker.stateOf_eq_map_entry, hentry, ← hrunning]
    rfl
  rw [Tracker.stateOf_eq_map_entry, Option.map_eq_none_iff]
  exact hprunable.entry_eq_none_iff hturns hover

private def reliableSetup : Setup := .plain .reliable

private def prunedFlow : Flow := timed ⟨"flow://y", Eq.refl false⟩ ⟨"1", Eq.refl false⟩ "0 0 * * *"

/-- The node leads and has the flow scheduled. -/
private def prunedLeader : Node :=
  Node.initial.obeyAll reliableSetup [.lead true, .change (.added (.flow prunedFlow))]

private def prunedPayload : Payload := ⟨configOf reliableSetup prunedFlow, false, some prunedFlow⟩

/-- The execution begins before it is forgotten, and somebody asks it to stop. -/
private def begunInTime : List Turn :=
  [.fire, .depart, .fire, .depart,
    .meanwhile fun n => (n.interrupt reliableSetup "flow://y").1, .depart,
    .fire, .fire, .fire, .fire].map fun move => ⟨.reliable, move⟩

/-- The firing is accepted before the flow is unscheduled and begins afterwards. -/
private def forgottenTooSoon : List Turn :=
  [.fire, .depart, .depart, .depart, .fire, .fire, .fire, .fire, .fire].map fun move =>
    ⟨.reliable, move⟩

/-- The entry of an execution that was running when it was forgotten is gone in the end. -/
theorem pruned_in_time :
    prunedLeader.jobs["flow://y"]?.map (·.payload) = some prunedPayload ∧
    prunedLeader.executions.stateOf "flow://y" ≠ some .running ∧
    (∀ turn ∈ begunInTime, turn.Spares "flow://y") ∧
    let e := (start "flow://y" prunedPayload prunedLeader).run reliableSetup "flow://y" begunInTime
    e.isOver = true ∧ e.node.executions.stateOf "flow://y" = none := by
  have hidle : prunedLeader.executions.stateOf "flow://y" ≠ some .running := by decide +kernel
  have hspares : ∀ turn ∈ begunInTime, turn.Spares "flow://y" := by
    simp only [begunInTime, List.map_cons, List.map_nil, List.forall_mem_cons]
    exact ⟨trivial, trivial, trivial, trivial, Turn.spares_interrupt _ _ _ _, trivial, trivial,
      trivial, trivial, trivial, nofun⟩
  have hover :
      ((start "flow://y" prunedPayload prunedLeader).run reliableSetup "flow://y"
        begunInTime).isOver = true := by
    decide +kernel
  refine ⟨by decide +kernel, hidle, hspares, hover,
    (pruned_iff reliableSetup prunedPayload hidle hspares hover).2 fun k => ?_⟩
  have hsoon : ∀ k ≤ 10, ((start "flow://y" prunedPayload prunedLeader).run reliableSetup "flow://y"
      (begunInTime.take k)).isLate = false := by decide +kernel
  -- After ten turns there is no other moment.
  rcases Nat.le_total k 10 with hk | hk
  · exact hsoon k hk
  · rw [List.take_of_length_le hk]
    exact hsoon 10 (Nat.le_refl 10)

/-- An execution that begins after it was forgotten leaves its entry behind. -/
theorem not_pruned : ¬ ∀ (s : Setup) (uri : String) (payload : Payload) (n : Node)
    (turns : List Turn), n.executions.stateOf uri ≠ some .running →
    (∀ turn ∈ turns, turn.Spares uri) →
    ((start uri payload n).run s uri turns).isOver = true →
    ((start uri payload n).run s uri turns).node.executions.stateOf uri = none := by
  intro h
  have hspares : ∀ turn ∈ forgottenTooSoon, turn.Spares "flow://y" := by
    simp only [forgottenTooSoon, List.map_cons, List.map_nil, List.forall_mem_cons]
    exact ⟨trivial, trivial, trivial, trivial, trivial, trivial, trivial, trivial, trivial, nofun⟩
  -- The statement would have the entry gone, and it is there.
  have hnone := h reliableSetup "flow://y" prunedPayload prunedLeader forgottenTooSoon
    (by decide +kernel) hspares
    (by decide +kernel)
  have hstays : ((start "flow://y" prunedPayload prunedLeader).run reliableSetup "flow://y"
      forgottenTooSoon).node.executions.stateOf "flow://y" = some .completed := by decide +kernel
  rw [hstays] at hnone
  cases hnone

end Encounter

end Node

end FlowCadence
