import FlowCadence.Proofs.Node.HandOver
import Mathlib.Data.List.Perm.Subperm
/-! # Runs left over from a term

A node on standby takes on no work: it refuses firings of its triggers, and what is added it
hands on.  But it does not look at its leadership again before it hands a flow to the
orchestrator.  A job that was queued, or a firing that was accepted, while the node led is
started after it has stepped down.

What is due when a node steps down is handed over, or it stays due: nothing is lost, and
nothing is due twice.  So a node on standby is idle just if nothing was due when it stepped
down.

## Key results

* `step_on_standby`, `run_on_standby`: what was due is handed over or still due
* `may_hand_over_iff`: which flows may be handed over on standby
* `idle_on_standby_iff`: when none is, whatever happens -/

namespace FlowCadence.Node

variable {s : Setup} {n : Node} {b : Laden}

namespace Laden

/-- The flows that a node has handed to the orchestrator. -/
def handed (b : Laden) : List Flow := b.node.handed

/-- The flows that queued jobs and runs are going to hand over. -/
def due (b : Laden) : List Flow :=
  b.node.queued.filterMap (fun config => b.node.flowFor config) ++
    b.runs.filterMap (fun d => d.due b.node)

/-- The node does not lead when one of the moves is made. -/
def OnStandby (s : Setup) (b : Laden) : List Turn → Prop
  | [] => True
  | turn :: turns =>
    b.node.active = false ∧ OnStandby s (b.step { s with replies := turn.replies } turn.move) turns

/-- Moves that a node makes on standby may hand these flows over, in this order. -/
def MayHandOver (s : Setup) (b : Laden) (fs : List Flow) : Prop :=
  ∃ turns, OnStandby s b turns ∧ (b.run s turns).handed = b.handed ++ fs

/-- Whatever happens, the node hands nothing over before it leads again. -/
def Idle (s : Setup) (b : Laden) : Prop :=
  ∀ turns, OnStandby s b turns → (b.run s turns).handed = b.handed

end Laden

/-! ### Every move -/

/-- A list through a partial function, apart from one place. -/
theorem filterMap_of_getElem? {α β : Type} {l : List α} {place : Nat} {a : α}
    (h : l[place]? = some a) (f : α → Option β) :
    l.filterMap f =
      (l.take place).filterMap f ++ (f a).toList ++ (l.drop (place + 1)).filterMap f := by
  obtain ⟨hlt, ha⟩ := List.getElem?_eq_some_iff.mp h
  have hl : l = l.take place ++ [a] ++ l.drop (place + 1) := by
    rw [← ha, List.take_append_getElem, List.take_append_drop]
  have hone : [a].filterMap f = (f a).toList := by cases hf : f a <;> simp [hf]
  rw [hl, List.filterMap_append, List.filterMap_append, hone, ← hl]

/-- What was due has been handed over, or it is still due. -/
structure Conserves (b b' : Laden) (fs : List Flow) : Prop where
  handed : b'.handed = b.handed ++ fs
  due : (fs ++ b'.due).Perm b.due

namespace Conserves

variable {b' b'' : Laden} {fs fs' : List Flow}

/-- Nothing is handed over, and the same is due. -/
theorem of_eq (hhanded : b'.handed = b.handed) (hdue : b'.due = b.due) : Conserves b b' [] where
  handed := by rw [hhanded, List.append_nil]
  due := by rw [hdue, List.nil_append]

theorem trans (h : Conserves b b' fs) (h' : Conserves b' b'' fs') :
    Conserves b b'' (fs ++ fs') where
  handed := by rw [h'.handed, h.handed, List.append_assoc]
  due := by
    rw [List.append_assoc]
    exact (h'.due.append_left fs).trans h.due

end Conserves

namespace Laden

/-- With the same flows registered, every job and every run is about the same flow. -/
theorem due_eq (h : b.node.registry = n.registry) :
    b.due = b.node.queued.filterMap (fun config => n.flowFor config) ++
      b.runs.filterMap (fun d => d.due n) := by
  rw [due]
  simp only [flowFor_congr h, Duty.due_congr h]

/-- Work that has nothing to do with runs leaves due what was due. -/
theorem conserves_work (haside : b.node.aside s = true) (move : Node.Move)
    (hstays : (b.step s (.work move)).node.active = false) :
    Conserves b (b.step s (.work move)) [] := by
  have hsame : SameWork b.node (b.step s (.work move)).node :=
    sameWork_busy_step haside move hstays
  -- With the same registry and the same queue, every job is about the same flow as before.
  have hdue : (b.step s (.work move)).due = b.due := by
    rw [due_eq hsame.registry, hsame.queued]
    rfl
  exact .of_eq (handed_busy_step b.busy move) hdue

/-- What a trigger offers is not due yet. -/
theorem conserves_fire (job : ScheduledJob) : Conserves b (b.step s (.fire job)) [] := by
  have hdue : (b.step s (.fire job)).due = b.due := by
    show (b.node.queued.filterMap fun config => b.node.flowFor config) ++
      (b.runs ++ [Duty.stage (.offered job.name job.payload)]).filterMap
        (fun d : Duty => d.due b.node) = b.due
    rw [List.filterMap_append]
    simp [due, Duty.due]
  exact .of_eq rfl hdue

/-- A queued job that gets its worker is as due as before. -/
theorem conserves_dispatch (place : Nat) : Conserves b (b.step s (.dispatch place)) [] := by
  rw [step]
  split
  · exact .of_eq rfl rfl
  · next config hconfig =>
    constructor
    · exact (List.append_nil _).symm
    · have hqueued := filterMap_of_getElem? hconfig (fun config => b.node.flowFor config)
      have hready : [Duty.stage (.ready .queued config false)].filterMap (fun d => d.due b.node) =
          (b.node.flowFor config).toList := by
        cases hflow : b.node.flowFor config <;> simp [Duty.due, hflow]
      rw [due_eq (n := b.node) rfl, due, hqueued]
      show ([] ++ ((b.node.queued.eraseIdx place).filterMap (fun config => b.node.flowFor config) ++
        (b.runs ++ [Duty.stage (.ready .queued config false)]).filterMap
          (fun d : Duty => d.due b.node))).Perm _
      rw [List.filterMap_append, hready, List.eraseIdx_eq_take_drop_succ, List.filterMap_append]
      -- The job has changed places, and each flow is due as often as before.
      simp only [List.perm_iff_count, List.count_append, List.count_nil]
      omega

/-- A run that does its next stage is replaced by what is left of it. -/
theorem step_proceed {place : Nat} {d : Duty} (hd : b.runs[place]? = some d) :
    b.step s (.proceed place) =
      { b.setNode (d.step s b.node).1 with
        runs := b.runs.take place ++ (d.step s b.node).2.toList ++ b.runs.drop (place + 1) } := by
  simp only [step, hd]

/-- A run that does its next stage hands over the flow that was due, or it is still due. -/
theorem conserves_proceed (haside : b.node.aside s = true) {place : Nat} {d : Duty}
    (hd : b.runs[place]? = some d) :
    Conserves b (b.step s (.proceed place)) d.hands.toList := by
  have hcarries := duty_step haside d
  rw [step_proceed hd]
  -- Only what is known of the node and of the rest of the run counts from here on.
  generalize (d.step s b.node).1 = m at hcarries ⊢
  generalize (d.step s b.node).2 = rest at hcarries ⊢
  have hruns := filterMap_of_getElem? hd (fun d => d.due m)
  have hrest : rest.toList.filterMap (fun d => d.due m) = (rest.bind (Duty.due m)).toList := by
    cases rest with
    | none => rfl
    | some d' => cases hdue : d'.due m <;> simp [hdue]
  constructor
  · exact hcarries.handed
  · rw [due_eq (n := m) rfl, due_eq hcarries.same.registry.symm, hruns,
      Duty.due_congr hcarries.same.registry, ← hcarries.due, ← hcarries.same.queued]
    show (d.hands.toList ++ (m.queued.filterMap (fun config => m.flowFor config) ++
      (b.runs.take place ++ rest.toList ++ b.runs.drop (place + 1)).filterMap
        (fun d : Duty => d.due m))).Perm _
    rw [List.filterMap_append, List.filterMap_append, hrest]
    simp only [List.perm_iff_count, List.count_append]
    -- The flow of this run moves from what is due to what is handed over, or stays; count it.
    omega

/-- A move on standby hands over what was due or leaves it due, unless the node leads by it;
    then it hands nothing over. -/
theorem step_on_standby (hc : s.clustered = true) (hb : b.node.active = false) (move : Laden.Move) :
    (∃ fs, Conserves b (b.step s move) fs) ∨
      ((b.step s move).node.active = true ∧ (b.step s move).handed = b.handed) := by
  have haside : b.node.aside s = true := by simp [aside, standsAside, hb, hc]
  cases move with
  | work move =>
    cases hactive : (b.step s (.work move)).node.active with
    | false => exact .inl ⟨[], conserves_work haside move hactive⟩
    | true => exact .inr ⟨rfl, handed_busy_step b.busy move⟩
  | fire job => exact .inl ⟨[], conserves_fire job⟩
  | dispatch place => exact .inl ⟨[], conserves_dispatch place⟩
  | proceed place =>
    -- Without a run in this place nothing happens.
    cases hd : b.runs[place]? with
    | some d => exact .inl ⟨d.hands.toList, conserves_proceed haside hd⟩
    | none =>
      have hstep : b.step s (.proceed place) = b := by simp only [step, hd]
      rw [hstep]
      exact .inl ⟨[], .of_eq rfl rfl⟩

/-- Nothing becomes due while the node stays on standby. -/
theorem due_step_of_nil (hc : s.clustered = true) (hb : b.node.active = false) {move : Laden.Move}
    (hstays : (b.step s move).node.active = false) (hdue : b.due = []) :
    (b.step s move).due = [] := by
  obtain ⟨fs, hconserves⟩ | ⟨hleads, _⟩ := step_on_standby hc hb move
  · have hperm := hconserves.due
    rw [hdue, List.perm_nil, List.append_eq_nil_iff] at hperm
    exact hperm.2
  · rw [hleads] at hstays
    cases hstays

/-- Whatever is handed over on standby was due at first, and it was due as often. -/
theorem run_on_standby (hc : s.clustered = true) (turns : List Turn) (h : OnStandby s b turns) :
    ∃ fs, (b.run s turns).handed = b.handed ++ fs ∧ fs.Subperm b.due := by
  induction turns generalizing b with
  | nil => exact ⟨[], (List.append_nil _).symm, List.nil_subperm⟩
  | cons turn turns ih =>
    obtain ⟨hb, hturns⟩ := h
    obtain ⟨rest, hrest, hsub⟩ := ih hturns
    have hrun : (b.run s (turn :: turns)).handed =
        (b.step { s with replies := turn.replies } turn.move).handed ++ rest := hrest
    obtain ⟨fs, hstep⟩ | ⟨hactive, hsame⟩ :=
      step_on_standby (s := { s with replies := turn.replies }) hc hb turn.move
    · refine ⟨fs ++ rest, ?_, ?_⟩
      · rw [hrun, hstep.handed, List.append_assoc]
      · exact ((List.Subperm.refl fs).append hsub).trans hstep.due.subperm
    · -- The node leads now, so that was the last move on standby.
      cases turns with
      | nil => exact ⟨[], by rw [List.append_nil]; exact hsame, List.nil_subperm⟩
      | cons next turns =>
        rw [hturns.1] at hactive
        cases hactive

/-! ### What is due may be handed over at once -/

/-- A stretch of standby may be followed by another one. -/
theorem onStandby_append {turns more : List Turn} (h : OnStandby s b turns)
    (h' : OnStandby s (b.run s turns) more) : OnStandby s b (turns ++ more) := by
  induction turns generalizing b with
  | nil => exact h'
  | cons turn turns ih => exact ⟨h.1, ih h.2 h'⟩

/-- Moves on standby may take a node there, and hand these flows over on the way. -/
def MayReach (s : Setup) (b b' : Laden) (fs : List Flow) : Prop :=
  ∃ turns, OnStandby s b turns ∧ b.run s turns = b' ∧ b'.node.active = false ∧ Conserves b b' fs

theorem MayReach.trans {b' b'' : Laden} {fs fs' : List Flow} (h : MayReach s b b' fs)
    (h' : MayReach s b' b'' fs') : MayReach s b b'' (fs ++ fs') := by
  obtain ⟨turns, hturns, rfl, hactive, hconserves⟩ := h
  obtain ⟨more, hmore, rfl, hactive', hconserves'⟩ := h'
  refine ⟨turns ++ more, onStandby_append hturns hmore, ?_, hactive', hconserves.trans hconserves'⟩
  rw [run, List.foldl_append]
  rfl

/-- One move may always be made. -/
theorem MayReach.of_step {move : Laden.Move} {fs : List Flow} (hb : b.node.active = false)
    (hstays : (b.step s move).node.active = false) (h : Conserves b (b.step s move) fs) :
    MayReach s b (b.step s move) fs :=
  ⟨[⟨s.replies, move⟩], ⟨hb, trivial⟩, rfl, hstays, h⟩

end Laden

/-- How many stages a run has before it, at most. -/
def Duty.rank : Duty → Nat
  | .stage (.offered ..) => 6
  | .stage (.accepted ..) => 5
  | .stage (.ready ..) => 4
  | .chosen .. => 3
  | .stage (.underway ..) => 2
  | .stage (.returned ..) => 1

/-- Every stage brings a run nearer to its end. -/
theorem Duty.rank_step {d rest : Duty} (h : (d.step s n).2 = some rest) : rest.rank < d.rank := by
  cases d with
  | chosen origin handed =>
    cases h
    simp [rank]
  | stage run =>
    cases run with
    | offered name payload =>
      cases haccepts : (runner s).accepts n with
      | true =>
        simp only [Duty.step, Execution.Run.step, haccepts, if_true] at h
        cases h
        simp [rank]
      | false =>
        simp only [Duty.step, Execution.Run.step, haccepts] at h
        cases h
    | accepted name payload =>
      cases h
      simp [rank]
    | ready origin config listener =>
      simp only [Duty.step] at h
      split at h <;> cases h <;> simp [rank]
    | underway origin handed =>
      cases h
      simp [rank]
    | returned origin result => cases h

namespace Laden

/-- A run whose flow is due may hand it over, stage by stage. -/
theorem may_reach_of_run (hc : s.clustered = true) {place : Nat} {f : Flow} {d : Duty}
    (hb : b.node.active = false) (hd : b.runs[place]? = some d) (hdue : d.due b.node = some f) :
    ∃ b', MayReach s b b' [f] := by
  -- The run has fewer stages before it after each one, so this ends.
  induction hrank : d.rank using Nat.strongRecOn generalizing b d with
  | ind k ih =>
  have haside : b.node.aside s = true := by simp [aside, standsAside, hb, hc]
  have hcarries := duty_step haside d
  have hnode : (b.step s (.proceed place)).node = (d.step s b.node).1 := by
    rw [step_proceed hd]
    rfl
  have hstays : (b.step s (.proceed place)).node.active = false := by
    rw [hnode, hcarries.active, hb]
  have hproceed := MayReach.of_step hb hstays (conserves_proceed haside hd)
  have hflow := hcarries.due
  rw [hdue] at hflow
  cases hhands : d.hands with
  | some f' =>
    -- The flow is handed over now.
    simp only [hhands, Option.toList_some, List.cons_append, List.nil_append, List.cons.injEq]
      at hflow hproceed
    rw [hflow.1] at hproceed
    exact ⟨_, hproceed⟩
  | none =>
    -- The run is one stage nearer to it.
    simp only [hhands, Option.toList_none, List.nil_append, Option.toList_some] at hflow hproceed
    obtain ⟨rest, hrest, hlater⟩ :=
      Option.bind_eq_some_iff.1 (Option.toList_eq_singleton_iff.1 hflow)
    have hplace : (b.step s (.proceed place)).runs[place]? = some rest := by
      have hlt : place < b.runs.length := (List.getElem?_eq_some_iff.1 hd).1
      rw [step_proceed hd, hrest]
      simp [Nat.min_eq_left (Nat.le_of_lt hlt)]
    obtain ⟨b', hb'⟩ := ih rest.rank (hrank ▸ Duty.rank_step hrest) hstays hplace
      (hnode ▸ hlater) rfl
    exact ⟨b', hproceed.trans hb'⟩

/-- A flow that is due may be handed over. -/
theorem may_reach_of_due (hc : s.clustered = true) (hb : b.node.active = false) {f : Flow}
    (hf : f ∈ b.due) : ∃ b', MayReach s b b' [f] := by
  rw [due, List.mem_append, List.mem_filterMap, List.mem_filterMap] at hf
  obtain ⟨config, hconfig, hflow⟩ | ⟨d, hd, hdue⟩ := hf
  · -- A queued job gets a worker first.
    obtain ⟨place, hplace⟩ := List.getElem?_of_mem hconfig
    have hstep : b.step s (.dispatch place) =
        { b.setNode { b.node with queued := b.node.queued.eraseIdx place } with
          runs := b.runs ++ [.stage (.ready .queued config false)] } := by
      simp only [step, hplace]
    have hrun : (b.step s (.dispatch place)).runs[b.runs.length]? =
        some (.stage (.ready .queued config false)) := by
      rw [hstep]
      simp
    have hstays : (b.step s (.dispatch place)).node.active = false := by
      rw [hstep]
      exact hb
    have hdue : (Duty.stage (.ready .queued config false)).due (b.step s (.dispatch place)).node =
        some f := by
      rw [hstep]
      exact hflow
    obtain ⟨b', hb'⟩ := may_reach_of_run hc hstays hrun hdue
    exact ⟨b', (MayReach.of_step hb hstays (conserves_dispatch place)).trans hb'⟩
  · obtain ⟨place, hplace⟩ := List.getElem?_of_mem hd
    exact may_reach_of_run hc hb hplace hdue

/-- On standby, the flows that are due may be handed over in any order, and no others. -/
theorem may_hand_over_iff (hc : s.clustered = true) (hb : b.node.active = false) (fs : List Flow) :
    MayHandOver s b fs ↔ fs.Subperm b.due := by
  constructor
  · intro ⟨turns, hturns, hhanded⟩
    obtain ⟨fs', hhanded', hsub⟩ := run_on_standby hc turns hturns
    rw [hhanded', List.append_cancel_left_eq] at hhanded
    rw [← hhanded]
    exact hsub
  -- Conversely, hand the flows over one after the other.
  · intro hsub
    suffices h : ∃ b', MayReach s b b' fs by
      obtain ⟨b', turns, hturns, hreach, _, hconserves⟩ := h
      refine ⟨turns, hturns, ?_⟩
      rw [hreach]
      exact hconserves.handed
    induction fs generalizing b with
    | nil => exact ⟨b, [], trivial, rfl, hb, .of_eq rfl rfl⟩
    | cons f fs ih =>
      have hf : f ∈ b.due := hsub.subset List.mem_cons_self
      obtain ⟨b', hb'⟩ := may_reach_of_due hc hb hf
      have ⟨_, _, _, hstays, hconserves⟩ := hb'
      -- The others are due still.
      have hothers : fs.Subperm b'.due :=
        (List.subperm_cons f).1 (hsub.trans hconserves.due.symm.subperm)
      obtain ⟨b'', hb''⟩ := ih hstays hothers
      exact ⟨b'', hb'.trans hb''⟩

/-- A node on standby is idle just if nothing is due. -/
theorem idle_iff_due (hc : s.clustered = true) (hb : b.node.active = false) :
    Idle s b ↔ b.due = [] := by
  constructor
  · intro hidle
    cases hdue : b.due with
    | nil => rfl
    | cons f fs =>
      have hsub : [f].Subperm b.due := by
        rw [hdue, List.singleton_subperm_iff]
        exact List.mem_cons_self
      obtain ⟨turns, hturns, hhanded⟩ := (may_hand_over_iff hc hb [f]).2 hsub
      rw [hidle turns hturns] at hhanded
      simp at hhanded
  · intro hdue turns hturns
    obtain ⟨fs, hhanded, hsub⟩ := run_on_standby hc turns hturns
    rw [hdue, List.subperm_nil] at hsub
    rw [hhanded, hsub, List.append_nil]

end Laden

/-! ### Terms of leadership -/

/-- In a cluster, whatever comes in and in whatever order jobs and firings get their turns:
    a node never hands a flow over while it is on standby, now or later, just if nothing is
    due whenever it steps down. -/
theorem idle_on_standby_iff (hc : s.clustered = true) (turns : List Laden.Turn) :
    (∀ k, (Laden.start.run s (turns.take k)).node.active = false →
        Laden.Idle s (Laden.start.run s (turns.take k))) ↔
      ∀ k, (Laden.start.run s (turns.take k)).node.active = true →
        (Laden.start.run s (turns.take (k + 1))).node.active = false →
        (Laden.start.run s (turns.take (k + 1))).due = [] := by
  constructor
  · intro hidle k _ hstandby
    exact (Laden.idle_iff_due hc hstandby).1 (hidle (k + 1) hstandby)
  · intro hdown k hstandby
    rw [Laden.idle_iff_due hc hstandby]
    -- Nothing is due at the start, and nothing becomes due on standby; only a term makes flows due.
    induction k with
    | zero => rfl
    | succ k ih =>
      cases hactive : (Laden.start.run s (turns.take k)).node.active with
      | true => exact hdown k hactive hstandby
      | false =>
        have hbefore := ih hactive
        have hrun : Laden.start.run s (turns.take (k + 1)) =
            (Laden.start.run s (turns.take k)).run s turns[k]?.toList := by
          rw [List.take_add_one, Laden.run, List.foldl_append]
          rfl
        rw [hrun] at hstandby ⊢
        cases hturn : turns[k]? with
        | none => exact hbefore
        | some turn =>
          -- The node has stayed on standby.
          rw [hturn] at hstandby
          exact Laden.due_step_of_nil (s := { s with replies := turn.replies }) hc hactive hstandby
            hbefore

/-- A flow without a schedule. -/
private def queuedFlow : Flow := ⟨⟨"flow://n", Eq.refl false⟩, ⟨"1", Eq.refl false⟩, none, ∅⟩

/-- The node starts to lead, and a flow to run at once is added. -/
private def openingMoves : List Laden.Move :=
  [.work (.accept (.lead true)), .work (.accept (.change (.added (.flow queuedFlow)))),
    .work (.advance 0)]

/-- The queued job gets a worker, its flow is looked up, and it is handed over. -/
private def handingMoves : List Laden.Move := [.dispatch 0, .proceed 0, .proceed 0]

private def closingMoves : List Laden.Move := [.work (.accept (.lead false))]

/-- Moves with collaborators that never fail. -/
private def faultlessTurns (moves : List Laden.Move) : List Laden.Turn :=
  moves.map fun move => ⟨.reliable, move⟩

private def ladenAfter (moves : List Laden.Move) (k : Nat) : Laden :=
  Laden.start.run (.plain .reliable) ((faultlessTurns moves).take k)

/-- The flow has been handed over when the node steps down, and nothing comes after it. -/
theorem idle_after_handing :
    let b := ladenAfter (openingMoves ++ handingMoves ++ closingMoves) 7
    b.node.active = false ∧ b.handed = [queuedFlow] ∧ Laden.Idle (.plain .reliable) b := by
  intro b
  have hstandby : b.node.active = false := by decide +kernel
  have hmoves : ∀ k < 7,
      (ladenAfter (openingMoves ++ handingMoves ++ closingMoves) k).node.active = true →
      (ladenAfter (openingMoves ++ handingMoves ++ closingMoves) (k + 1)).node.active = false →
      (ladenAfter (openingMoves ++ handingMoves ++ closingMoves) (k + 1)).due = [] := by
    decide +kernel
  refine ⟨hstandby, by decide +kernel, ?_⟩
  apply (idle_on_standby_iff rfl
    (faultlessTurns (openingMoves ++ handingMoves ++ closingMoves))).2 _ 7 hstandby
  intro k hleads hdown
  rcases Nat.lt_or_ge k 7 with hk | hk
  · exact hmoves k hk hleads hdown
  · -- All moves have been made, so the node has stepped down.
    rw [List.take_of_length_le hk] at hleads
    exact absurd (hleads.symm.trans hstandby) (by decide)

/-- The node steps down while the job is queued, and hands the flow over afterwards. -/
theorem not_idle_on_standby :
    ¬ ∀ (s : Setup) (turns : List Laden.Turn) (k : Nat), s.clustered = true →
      (Laden.start.run s (turns.take k)).node.active = false →
      (Laden.start.run s (turns.take (k + 1))).handed =
        (Laden.start.run s (turns.take k)).handed := by
  intro h
  have hsame := h (.plain .reliable)
    (faultlessTurns (openingMoves ++ closingMoves ++ handingMoves)) 6 rfl
    (by decide +kernel)
  exact absurd hsame (by decide +kernel)

end FlowCadence.Node
