import FlowCadence.Proofs.Node.Restore
import FlowCadence.Proofs.Node.Slot
import Mathlib.Data.List.Induction
/-! # Registered flows and installed triggers

A flow should be registered exactly when its trigger is installed.  On an engine that
serves every call there is one way to lose that: a flow with a schedule that cannot be
used is added under a uri that has a trigger.  The flow leaves the registry again, whatever
was registered before, and the trigger stays behind.

An update does not do so, since it removes the old trigger first, and neither does a
listing in which a flow that can be scheduled follows under the same uri.

## Key results

* `aligned_enterAll_iff`: when added specs leave a uri aligned
* `aligned_step_iff`: when a move leaves all of them aligned
* `aligned_run_iff`: when a whole run does, move after move -/

namespace FlowCadence.Node

variable {s : Setup} {n : Node} {specs : List Spec}

/-- Every uri is registered exactly when there is a trigger under it. -/
def Aligned (n : Node) : Prop := ∀ uri, (n.slot uri).1.isSome = (n.slot uri).2.isSome

/-- The flows that the specs have under a uri and that have a schedule, of use or not. -/
def Setup.planned (s : Setup) (specs : List Spec) (uri : String) : List Flow :=
  specs.filterMap fun spec =>
    spec.flow?.filter fun f => f.uri.text = uri && (configOf s f).hasSchedule

/-- Adding the specs strands the trigger of a uri: the last flow with a schedule cannot be
    scheduled, while there is a trigger from before or one of another flow among them. -/
def Strands (s : Setup) (n : Node) (specs : List Spec) (uri : String) : Prop :=
  ∃ f, (s.planned specs uri).getLast? = some f ∧ (∀ sch, ¬ s.Schedules f sch) ∧
    (n.jobs[uri]? ≠ none ∨ ∃ g ∈ s.planned specs uri, ∃ sch, s.Schedules g sch)

/-- The specs that a move adds. -/
def Busy.additions (s : Setup) (b : Busy) : Move → List Spec
  | .accept (.lead true) =>
    if b.node.active || !s.catalogued then []
    else (s.replies.list (({ b.node with active := true } : Node).call .list)).toOption.getD []
  | .accept _ => []
  | .advance place =>
    match b.underway[place]? with
    | some (.enter spec) | some (.react (.added spec) _) => if b.node.aside s then [] else [spec]
    | _ => []

/-- A node that is to lead adds what its move adds, and apart from that nothing changes but the
    flag and the trace. -/
theorem lead_true_eq (s : Setup) (b : Busy) : ∃ trace, b.node.lead s true =
    addAll s (b.additions s (.accept (.lead true))) { b.node with active := true, trace } := by
  cases hactive : b.node.active with
  | true =>
    -- The node leads already.
    have hadditions : b.additions s (.accept (.lead true)) = [] := by
      simp [Busy.additions, hactive]
    rw [lead, if_pos hactive, hadditions, ← hactive]
    exact ⟨b.node.trace, rfl⟩
  | false =>
    have hne : ¬ b.node.active = true := by simp [hactive]
    rw [lead, if_neg hne, if_pos rfl, restore]
    -- Without a catalog there is nothing to restore.
    cases hc : s.catalogued with
    | false => exact ⟨b.node.trace, by simp [Busy.additions, hc, addAll]⟩
    -- The catalog lists its specs, or it fails and nothing is added.
    | true =>
      simp only [if_true]
      split
      · next specs hlist =>
        have hadditions : b.additions s (.accept (.lead true)) = specs := by
          simp [Busy.additions, hactive, hc, hlist, Except.toOption]
        rw [hadditions]
        exact ⟨_, rfl⟩
      · next fault hlist =>
        have hadditions : b.additions s (.accept (.lead true)) = [] := by
          simp [Busy.additions, hactive, hc, hlist, Except.toOption]
        rw [hadditions]
        exact ⟨_, rfl⟩

/-! ### The names of flows and triggers -/

/-- Two tables have the same keys when they hold something under the same keys. -/
theorem keys_eq_iff {α β : Type} {t : Table α} {u : Table β} :
    t.keys = u.keys ↔ ∀ key : String, t[key]?.isSome = u[key]?.isSome := by
  have hmem {γ : Type} (t : Table γ) (key : String) : key ∈ t.keys ↔ t[key]?.isSome = true := by
    rw [Std.ExtTreeMap.mem_keys, Std.ExtTreeMap.mem_iff_isSome_getElem?]
  -- Equal keys hold something under equal keys.
  constructor
  · intro h key
    rw [Bool.eq_iff_iff, ← hmem, ← hmem, h]
  -- Neither table has a key twice, so the lists of keys are permutations.
  · intro h
    have hperm : t.keys.Perm u.keys := by
      rw [List.perm_ext_iff_of_nodup t.nodup_keys u.nodup_keys]
      intro key
      rw [hmem, hmem, h]
    -- Both lists are in ascending order.
    apply hperm.eq_of_pairwise _ Std.ExtTreeMap.ordered_keys Std.ExtTreeMap.ordered_keys
    intro a b _ _ hless hmore
    exact absurd hmore (Std.OrientedCmp.not_lt_of_lt hless)

/-- Nodes are aligned when their triggers are named by the uris of their flows. -/
theorem aligned_iff : n.Aligned ↔ n.installed = n.scheduled := by
  rw [installed, scheduled, keys_eq_iff]
  exact forall_congr' fun uri => eq_comm

/-! ### Added specs -/

/-- What a slot becomes when specs are added one after another. -/
def enterAll (s : Setup) (uri : String) (specs : List Spec) (old : Slot) : Slot :=
  specs.foldl (fun slot spec => (Write.enter spec).apply s uri slot) old

/-- What a slot becomes when specs are added is found by going through them. -/
theorem slot_addAll (hs : s.replies.EngineServes) (ha : n.aside s = false) (specs : List Spec)
    (uri : String) : (n.addAll s specs).slot uri = enterAll s uri specs (n.slot uri) := by
  induction specs generalizing n with
  | nil => rfl
  | cons spec specs ih =>
    -- The first spec writes to the slot, and the rest finds what it has left.
    have hadd : (n.add s spec).slot uri = (Write.enter spec).apply s uri (n.slot uri) := by
      simp [slot_add_eq hs, ha, written]
    rw [addAll_cons, ih ((aside_congr (active_add s spec n)).trans ha), hadd]
    rfl

/-- The last spec is entered into what the others have left. -/
theorem enterAll_append (uri : String) (specs : List Spec) (spec : Spec) (old : Slot) :
    enterAll s uri (specs ++ [spec]) old =
      (Write.enter spec).apply s uri (enterAll s uri specs old) := by
  simp [enterAll]

/-- The flows of two lists are those of the first and then those of the second. -/
theorem planned_append (specs specs' : List Spec) (uri : String) :
    s.planned (specs ++ specs') uri = s.planned specs uri ++ s.planned specs' uri := by
  simp [Setup.planned]

/-- A single flow is planned under its own uri, if it has a schedule. -/
theorem planned_flow (f : Flow) (uri : String) :
    s.planned [.flow f] uri =
      if f.uri.text = uri ∧ (configOf s f).hasSchedule = true then [f] else [] := by
  by_cases h : f.uri.text = uri ∧ (configOf s f).hasSchedule = true
  · simp [Setup.planned, Spec.flow?, Option.filter_some, h]
  · have hdrop : (decide (f.uri.text = uri) && (configOf s f).hasSchedule) = false := by
      simpa using h
    simp [Setup.planned, Spec.flow?, Option.filter_some, hdrop, h]

/-- A spec has no flow with a schedule under the uri, and the slot stays as it is, or it has
    one, and then that is scheduled, or it leaves the trigger without a flow. -/
theorem enter_cases (s : Setup) (spec : Spec) (uri : String) (old : Slot) :
    (s.planned [spec] uri = [] ∧ (Write.enter spec).apply s uri old = old) ∨
    ∃ f, s.planned [spec] uri = [f] ∧
      ((∃ sch, s.Schedules f sch ∧
        (Write.enter spec).apply s uri old = (some f, some (triggerOf s f sch))) ∨
      ((∀ sch, ¬ s.Schedules f sch) ∧ (Write.enter spec).apply s uri old = (none, old.2))) := by
  cases spec with
  -- A topology is no flow, and it writes nothing.
  | topology t =>
    left
    simp [Setup.planned, Spec.flow?, Write.apply, reconciled]
  | flow f =>
    by_cases hne : f.uri.text = uri
    · have hplain := (configOf s f).schedule_eq_ok_none_iff
      simp only [planned_flow, Write.apply, Spec.uri, reconciled, hne, true_and, if_true,
        ← schedule_configOf_iff]
      -- A flow without a schedule is not planned, and it changes nothing.
      cases hc : (configOf s f).schedule with
      -- The expression cannot be parsed: there is one, and the flow loses its place.
      | error fault =>
        right
        have hhas : (configOf s f).hasSchedule = true := by simpa [hc] using hplain
        exact ⟨f, by rw [if_pos hhas], .inr ⟨by simp [hc], rfl⟩⟩
      | ok o =>
        rw [hc] at hplain
        cases o with
        | none =>
          left
          -- There is no expression, so the flow is not planned.
          exact ⟨by simpa using hplain, rfl⟩
        | some sch =>
          right
          have hhas : (configOf s f).hasSchedule = true := by simpa using hplain
          exact ⟨f, by rw [if_pos hhas], .inl ⟨sch, hc, rfl⟩⟩
    -- The flow has another uri.
    · left
      simp [planned_flow, Spec.uri, Write.apply, hne]

/-- There is a trigger once specs are added if there was one, or if one of the flows that
    have a schedule could be scheduled. -/
theorem trigger_enterAll (s : Setup) (specs : List Spec) (uri : String) (old : Slot) :
    (enterAll s uri specs old).2 ≠ none ↔
      old.2 ≠ none ∨ ∃ g ∈ s.planned specs uri, ∃ sch, s.Schedules g sch := by
  -- The last spec is looked at, since what it leaves is what is left in the end.
  induction specs using List.reverseRecOn with
  | nil => simp [enterAll, Setup.planned]
  | append_singleton specs spec ih =>
    rw [enterAll_append, planned_append]
    rcases enter_cases s spec uri (enterAll s uri specs old) with
      ⟨hnone, heq⟩ | ⟨f, hone, ⟨sch, hsch, heq⟩ | ⟨hno, heq⟩⟩
    -- The last spec changes nothing.
    · simp [heq, hnone, ih]
    -- It is a flow that can be scheduled, and its trigger is there.
    · have huse : ∃ sch, s.Schedules f sch := ⟨sch, hsch⟩
      simp [heq, hone, huse]
    -- It is a flow that cannot be scheduled, and the trigger is as before.
    · have hnot : ¬ ∃ sch, s.Schedules f sch := not_exists.2 hno
      simp [heq, hone, ih, hnot]

/-- Added specs leave a uri aligned unless they strand its trigger. -/
theorem aligned_enterAll_iff {uri : String} (h : (n.slot uri).1.isSome = (n.slot uri).2.isSome)
    (specs : List Spec) :
    (enterAll s uri specs (n.slot uri)).1.isSome = (enterAll s uri specs (n.slot uri)).2.isSome ↔
      ¬ Strands s n specs uri := by
  induction specs using List.reverseRecOn with
  | nil => simp [enterAll, Strands, Setup.planned, h]
  | append_singleton specs spec ih =>
    have htrigger := trigger_enterAll s specs uri (n.slot uri)
    rw [Strands, enterAll_append, planned_append]
    rcases enter_cases s spec uri (enterAll s uri specs (n.slot uri)) with
      ⟨hnone, heq⟩ | ⟨f, hone, ⟨sch, hsch, heq⟩ | ⟨hno, heq⟩⟩
    -- The last spec changes nothing, so the others decide.
    · rw [heq, ih, hnone, List.append_nil]
      rfl
    · -- The last flow is scheduled, so nothing is stranded.
      have huse : ∃ sch, s.Schedules f sch := ⟨sch, hsch⟩
      rw [heq, hone]
      simp [huse]
    · -- The last flow cannot be scheduled, and what counts is whether there is a trigger.
      have hnot : ¬ ∃ sch, s.Schedules f sch := not_exists.2 hno
      have hlast : (s.planned specs uri ++ [f]).getLast? = some f := by simp
      have hmem : (∃ g ∈ s.planned specs uri ++ [f], ∃ sch, s.Schedules g sch) ↔
          ∃ g ∈ s.planned specs uri, ∃ sch, s.Schedules g sch := by
        simp [hnot]
      rw [heq, hone, hlast, hmem, show n.jobs[uri]? = (n.slot uri).2 from rfl, ← htrigger]
      cases (enterAll s uri specs (n.slot uri)).2 <;> simp [hno]

/-- Added specs leave the node aligned unless they strand a trigger. -/
theorem aligned_addAll_iff (hs : s.replies.EngineServes) (ha : n.aside s = false)
    (h : n.Aligned) (specs : List Spec) :
    (n.addAll s specs).Aligned ↔ ∀ uri, ¬ Strands s n specs uri := by
  apply forall_congr'
  intro uri
  rw [slot_addAll hs ha]
  exact aligned_enterAll_iff (h uri) specs

/-! ### Moves -/

/-- Where nothing is added nothing is stranded. -/
theorem not_strands_nil (uri : String) : ¬ Strands s n [] uri := by
  simp [Strands, Setup.planned]

/-- Alignment is about slots. -/
theorem Aligned.of_slots {m : Node} (h : n.Aligned) (hslot : ∀ uri, m.slot uri = n.slot uri) :
    m.Aligned := by
  intro uri
  rw [hslot]
  exact h uri

/-- Where a write that adds nothing is made, both sides of a slot are there, or neither is. -/
theorem Aligned.of_written {m : Node} {w : Option Write} (h : n.Aligned)
    (hslot : ∀ uri, m.slot uri = written s uri w (n.slot uri))
    (hw : ∀ spec, w ≠ some (.enter spec)) : m.Aligned := by
  intro uri
  rw [hslot]
  cases w with
  -- Nothing is written at all.
  | none => exact h uri
  | some w =>
    cases w with
    | enter spec => exact absurd rfl (hw spec)
    | renew f =>
      -- The place was cleared, so the flow comes with its trigger or does not come at all.
      simp only [written, Option.elim_some, Write.apply]
      split
      · simp only [reconciled]
        cases (configOf s f).schedule with
        | error fault => rfl
        | ok o => cases o <;> rfl
      · exact h uri
    -- The place is cleared on both sides.
    | leave a =>
      simp only [written, Option.elim_some, Write.apply]
      split
      · rfl
      · exact h uri

/-- A deletion leaves the node aligned. -/
theorem Aligned.delete (hs : s.replies.EngineServes) (h : n.Aligned) (uri version : String) :
    (n.delete s uri version).Aligned :=
  h.of_written (slot_delete_eq hs uri version) (by split <;> simp)

/-- A change of leadership leaves the node aligned unless a listed spec strands a trigger. -/
theorem aligned_lead_iff (hs : s.replies.EngineServes) {b : Busy} (h : b.node.Aligned)
    (active : Bool) : (b.node.lead s active).Aligned ↔
      -- The node is told what it does already.
      ∀ uri, ¬ Strands s b.node (b.additions s (.accept (.lead active))) uri := by
  by_cases hsame : b.node.active = active
  -- Then it stays as it is and adds nothing.
  · have hlead : b.node.lead s active = b.node := by rw [lead, if_pos hsame]
    have hnone : b.additions s (.accept (.lead active)) = [] := by
      cases active with
      | true => simp [Busy.additions, hsame]
      | false => rfl
    rw [hlead, hnone]
    exact iff_of_true h not_strands_nil
  · cases active with
    -- It starts to lead and adds what the catalog lists.
    | true =>
      obtain ⟨trace, heq⟩ := lead_true_eq s b
      have hleading : Aligned { b.node with active := true, trace } := h.of_slots fun _ => rfl
      rw [heq]
      exact aligned_addAll_iff hs (aside_of_active rfl) hleading _
    | false =>
      -- The term ends with a deletion for each registered flow.
      have hlead : (b.node.lead s false).Aligned := by
        rw [lead, if_neg hsame, if_neg Bool.false_ne_true]
        exact List.foldlRecOn (motive := Aligned) b.node.registry.toList _ (h.of_slots fun _ => rfl)
          fun _ hm entry _ => hm.delete hs _ _
      exact iff_of_true hlead not_strands_nil

/-- An added spec leaves the node aligned unless it strands a trigger.  Nothing is added on a
    node that stands aside. -/
theorem aligned_add_iff (hs : s.replies.EngineServes) (h : n.Aligned) (spec : Spec) :
    (n.add s spec).Aligned ↔
      ∀ uri, ¬ Strands s n (if n.aside s then [] else [spec]) uri := by
  -- A node that stands aside forwards what it is told to add.
  by_cases ha : n.aside s = true
  · have hadd : (n.add s spec).Aligned := by
      apply h.of_slots
      intro uri
      rw [slot_add_eq hs, if_pos ha, written_none]
    rw [if_pos ha]
    exact iff_of_true hadd not_strands_nil
  · rw [if_neg ha]
    exact aligned_addAll_iff hs (Bool.not_eq_true _ ▸ ha) h [spec]

/-- A stage leaves the node aligned unless it adds a spec that strands a trigger. -/
theorem aligned_advance_iff (hs : s.replies.EngineServes) {b : Busy} (h : b.node.Aligned)
    (place : Nat) : (b.step s (.advance place)).node.Aligned ↔
      ∀ uri, ¬ Strands s b.node (b.additions s (.advance place)) uri := by
  -- Nothing is under way at that place.
  cases ha : b.underway[place]? with
  | none =>
    simp only [Busy.step, Busy.additions, ha]
    exact iff_of_true h not_strands_nil
  | some a =>
    simp only [Busy.step, Busy.additions, ha]
    have hslot := slot_step hs a b.node
    -- Only two kinds of stages add anything.
    cases a with
    | enter spec => exact aligned_add_iff hs h spec
    | react change others =>
      cases change with
      -- The update of a flow enters it anew.
      | added spec => exact aligned_add_iff hs h spec
      | updated spec =>
        apply iff_of_true (h.of_written hslot _) not_strands_nil
        intro spec'
        cases spec <;> simp [Activity.write?, Spec.flow?]
      -- A deletion clears the place.
      | deleted uri version =>
        apply iff_of_true (h.of_written hslot _) not_strands_nil
        simp [Activity.write?]
    -- A reconciled removal clears it as well.
    | leave uri =>
      apply iff_of_true (h.of_written hslot _) not_strands_nil
      simp [Activity.write?]
    -- The other stages leave all slots alone.
    | notice m | resolve m | consult kind uri | put spec | delete uri | clear uri version others
    | tell change others =>
      exact iff_of_true (h.of_slots hslot) not_strands_nil

/-- A move leaves the node aligned unless it adds specs that strand a trigger. -/
theorem aligned_step_iff (hs : s.replies.EngineServes) {b : Busy} (h : b.node.Aligned)
    {move : Move} (hmove : ∀ config listener, move ≠ .accept (.schedule config listener)) :
    (b.step s move).node.Aligned ↔
      ∀ uri, ¬ Strands s b.node (b.additions s move) uri := by
  cases move with
  -- A stage of an activity.
  | advance place => exact aligned_advance_iff hs h place
  | accept c =>
    -- Of the commands only a change of leadership is carried out at once.
    cases c with
    | lead active => exact aligned_lead_iff hs h active
    | schedule config listener => exact absurd rfl (hmove config listener)
    | change c | notice m | put spec | delete uri => exact iff_of_true h not_strands_nil

/-! ### Runs -/

/-- The turn is made on an engine that serves every call, and no trigger is installed
    without a flow. -/
structure Turn.Regular (turn : Turn) : Prop where
  serves : turn.replies.EngineServes
  flows : ∀ config listener, turn.move ≠ .accept (.schedule config listener)

/-- The same from any aligned node on: after every turn the node is aligned exactly if no turn
strands a trigger. -/
theorem aligned_run_of_aligned_iff {turns : List Turn} (hturns : ∀ turn ∈ turns, turn.Regular)
    {b : Busy} (h : b.node.Aligned) :
    (∀ k, (b.run s (turns.take k)).node.Aligned) ↔
      ∀ k turn, turns[k]? = some turn → ∀ uri,
        let b := b.run s (turns.take k)
        let s := { s with replies := turn.replies }
        ¬ Strands s b.node (b.additions s turn.move) uri := by
  -- In both directions the first turn is aligned, so that the rest starts from an aligned node.
  induction turns generalizing b with
  | nil => simp [Busy.run, h]
  | cons turn turns ih =>
    have hturn := hturns turn List.mem_cons_self
    have hstep := aligned_step_iff (s := { s with replies := turn.replies }) hturn.serves h
      hturn.flows
    constructor
    -- The node is aligned after one turn, so that turn strands nothing, and neither do the rest.
    · intro hall k later hlater uri
      cases k with
      | zero =>
        rw [List.getElem?_cons_zero, Option.some.injEq] at hlater
        subst hlater
        exact hstep.1 (hall 1) uri
      | succ k =>
        have hnext := ih (fun t ht => hturns t (List.mem_cons_of_mem _ ht)) (hall 1)
        exact hnext.1 (fun k => hall (k + 1)) k later hlater uri
    -- The first turn strands nothing, so the node is aligned when the rest begin.
    · intro hno k
      cases k with
      | zero => exact h
      | succ k =>
        have hnext := ih (fun t ht => hturns t (List.mem_cons_of_mem _ ht))
          (hstep.2 fun uri => hno 0 turn rfl uri)
        exact hnext.2 (fun k later hlater uri => hno (k + 1) later hlater uri) k

/-- Let a node be started and its commands be carried out in any order of their stages, with
    whatever answers from the catalog, on an engine that serves every call.  Then the
    triggers are named by the uris of the registered flows, after every turn, exactly when no
    turn adds specs that strand a trigger. -/
theorem aligned_run_iff (s : Setup) {turns : List Turn} (hturns : ∀ turn ∈ turns, turn.Regular) :
    (∀ k, let n := (Busy.start.run s (turns.take k)).node; n.installed = n.scheduled) ↔
      ∀ k turn, turns[k]? = some turn → ∀ uri,
        let b := Busy.start.run s (turns.take k)
        let s := { s with replies := turn.replies }
        ¬ Strands s b.node (b.additions s turn.move) uri := by
  -- A node that was just started has nothing in either table.
  have hstart : Busy.start.node.Aligned := aligned_iff.2 rfl
  rw [← aligned_run_of_aligned_iff hturns hstart]
  exact forall_congr' fun k => aligned_iff.symm

/-- Flows that can be scheduled whenever they have a schedule strand nothing. -/
theorem not_strands_of_usable (h : ∀ f, Spec.flow f ∈ specs →
    (configOf s f).hasSchedule = true → ∃ sch, s.Schedules f sch) (uri : String) :
    ¬ Strands s n specs uri := by
  intro ⟨f, hlast, hno, _⟩
  -- The last flow with a schedule is one of the specs, and all of these can be scheduled.
  have hmem := List.mem_of_getLast? hlast
  simp only [Setup.planned, List.mem_filterMap, Option.filter_eq_some_iff, Bool.and_eq_true] at hmem
  obtain ⟨spec, hspec, hf, -, hhas⟩ := hmem
  cases spec with
  | topology t => cases hf
  | flow g =>
    cases hf
    obtain ⟨sch, hsch⟩ := h f hspec hhas
    exact hno sch hsch

private def garbledUri : Label := ⟨"flow://f", Eq.refl false⟩

private def readableFlow : Flow := timed garbledUri ⟨"1", Eq.refl false⟩ "0 0 * * *"

/-- A later version, with a schedule that cannot be read. -/
private def garbledFlow : Flow := timed garbledUri ⟨"2", Eq.refl false⟩ "whenever"

/-- Moves with collaborators that never fail. -/
private def regularTurns (moves : List Move) : List Turn := moves.map fun move => ⟨.reliable, move⟩

/-- These turns are regular, since they install no trigger without a flow. -/
private theorem regular_regularTurns {moves : List Move}
    (h : ∀ config listener, .accept (.schedule config listener) ∉ moves) :
    ∀ turn ∈ regularTurns moves, turn.Regular := by
  intro turn hturn
  obtain ⟨move, hmove, rfl⟩ := List.mem_map.1 hturn
  exact ⟨Replies.reliable_engineServes, fun config listener heq => h config listener (heq ▸ hmove)⟩

/-- A flow is added, updated to the version that cannot be scheduled, and added again. -/
private def updatedToGarbled : List Move :=
  [.accept (.lead true), .accept (.change (.added (.flow readableFlow))), .advance 0, .advance 0,
    .accept (.change (.updated (.flow garbledFlow))), .advance 0, .advance 0,
    .accept (.change (.added (.flow readableFlow))), .advance 0]

/-- With the update the flow goes from both sides, and then it comes back on both. -/
theorem aligned_run_updated :
    let s : Setup := .plain .reliable
    let turns := regularTurns updatedToGarbled
    (Busy.start.run s (turns.take 6)).node.installed = [] ∧
      (Busy.start.run s turns).node.installed = ["flow://f"] ∧
      ∀ k, let n := (Busy.start.run s (turns.take k)).node; n.installed = n.scheduled := by
  intro s turns
  refine ⟨by decide +kernel, by decide +kernel, ?_⟩
  have husable : ∀ f, Spec.flow f ∈ [Spec.flow readableFlow] → (configOf s f).hasSchedule = true →
      ∃ sch, s.Schedules f sch := by
    intro f hf _
    cases List.mem_singleton.1 hf
    decide +kernel
  -- No turn adds anything but the version that can be scheduled.
  have hadditions : ∀ k < updatedToGarbled.length, ∀ move ∈ updatedToGarbled[k]?,
      (Busy.start.run s (turns.take k)).additions s move = [] ∨
        (Busy.start.run s (turns.take k)).additions s move = [.flow readableFlow] := by
    decide +kernel
  apply (aligned_run_iff s (regular_regularTurns (by simp [updatedToGarbled]))).2
  intro k turn hk uri
  rw [regularTurns, List.getElem?_map, Option.map_eq_some_iff] at hk
  obtain ⟨move, hmove, rfl⟩ := hk
  obtain ⟨hlength, -⟩ := List.getElem?_eq_some_iff.1 hmove
  have hadd := hadditions k hlength move hmove
  show ¬ Strands s _ ((Busy.start.run s (turns.take k)).additions s move) uri
  rcases hadd with heq | heq
  · rw [heq]
    exact not_strands_nil uri
  · rw [heq]
    exact not_strands_of_usable husable uri

/-- A flow is added, and then the version that cannot be scheduled. -/
private def addedAsGarbled : List Move :=
  [.accept (.lead true), .accept (.change (.added (.flow readableFlow))), .advance 0, .advance 0,
    .accept (.change (.added (.flow garbledFlow))), .advance 0]

/-- The trigger of the first version stays, though no flow is registered. -/
theorem not_aligned_run :
    ¬ ∀ (s : Setup) (turns : List Turn), (∀ turn ∈ turns, turn.Regular) →
      let n := (Busy.start.run s turns).node
      n.installed = n.scheduled := by
  intro h
  have haligned := h (.plain .reliable) (regularTurns addedAsGarbled)
    (regular_regularTurns (by simp [addedAsGarbled]))
  exact absurd haligned (by decide +kernel)

end FlowCadence.Node
