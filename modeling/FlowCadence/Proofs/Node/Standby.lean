import FlowCadence.Node.Schedule
import FlowCadence.Proofs.Node.Command
/-! # Nodes on standby

A node on standby in a cluster may still be told of changes, be sent notices and have
triggers of its own fire.  It does nothing about any of it but to hand on what it was told
of flows: what it has scheduled, installed, queued and tracked stays as it is, its catalog
too, and no collaborator is called except to send those notices.  That some of them cannot
be sent makes no difference.

## Key results

* `Relays`: a node that has sent notices and has done nothing else
* `relays_attend`: what one errand comes to
* `attendAll_of_standby`: what any number of them come to -/

namespace FlowCadence

/-- What a notice says, apart from the identifier it goes under. -/
def Notice.about (notice : Notice) : Notice.Kind × String := (notice.kind, notice.payload)

namespace Node

/-- The calls to collaborators that a node has made. -/
def calls (n : Node) : List Call :=
  n.trace.filterMap fun
    | .call c => some c
    | .alert _ => none

@[simp] theorem calls_call (n : Node) (c : Call) : (n.call c).calls = n.calls ++ [c] := by
  simp [calls, call]

@[simp] theorem calls_alert (n : Node) (a : Alert) : (n.alert a).calls = n.calls := by
  simp [calls, alert]

/-- What a node may have to see to, whether it leads or not. -/
inductive Errand where
  /-- A spec was added, changed or deleted. -/
  | change (c : Catalog.Change)
  /-- A notice has arrived. -/
  | notice (m : Notice)
  /-- A trigger fires. -/
  | fire (job : ScheduledJob)
  deriving DecidableEq

/-- The node after an errand, with the outcome of the firing if it was one. -/
def attend (s : Setup) (n : Node) : Errand → Node × Option Execution.Run.Outcome
  | .change c => (n.obey s (.change c), none)
  | .notice m => (n.obey s (.notice m), none)
  | .fire job => n.fire s job

/-- The node after errands, with the outcome of each. -/
def attendAll (s : Setup) (n : Node) : List Errand → Node × List (Option Execution.Run.Outcome)
  | [] => (n, [])
  | e :: errands =>
    let (n, outcome) := n.attend s e
    let (n, outcomes) := n.attendAll s errands
    (n, outcome :: outcomes)

namespace Errand

/-- What a node on standby hands on of an errand: a new flow is added, a changed one
    removed and added, and a deleted one removed. -/
def heralds : Errand → List (Notice.Kind × String)
  | .change (.added (.flow f)) => [(.added, f.uri.text)]
  | .change (.updated (.flow f)) =>
    [(.removed, f.uri.text ++ ":" ++ f.version.text), (.added, f.uri.text)]
  | .change (.deleted uri version) => [(.removed, uri ++ ":" ++ version)]
  | .change (.added (.topology _)) | .change (.updated (.topology _)) | .notice _ | .fire _ => []

/-- What a node on standby answers: every firing is pending. -/
def answer : Errand → Option Execution.Run.Outcome
  | .change _ | .notice _ => none
  | .fire _ => some (.state .pending)

end Errand

/-- The second node is the first one after it has sent notices that say `news`, and
    has done nothing else. -/
structure Relays (n m : Node) (news : List (Notice.Kind × String)) : Prop where
  same : m = { n with trace := m.trace }
  sends : ∃ notices : List Notice,
    m.calls = n.calls ++ notices.map .send ∧ notices.map Notice.about = news

variable {s : Setup} {n m : Node}

/-! ### Sending notices and nothing else -/

namespace Relays

theorem refl (n : Node) : Relays n n [] where
  same := rfl
  sends := ⟨[], by simp, rfl⟩

theorem trans {k : Node} {news more : List (Notice.Kind × String)} (h : Relays n m news)
    (h' : Relays m k more) : Relays n k (news ++ more) where
  same := by
    rw [h'.same, h.same]
  sends := by
    obtain ⟨sent, hcalls, hsays⟩ := h.sends
    obtain ⟨sent', hcalls', hsays'⟩ := h'.sends
    refine ⟨sent ++ sent', ?_, ?_⟩
    · rw [hcalls', hcalls, List.map_append, List.append_assoc]
    · rw [List.map_append, hsays, hsays']

/-- A node that relays still stands aside if it did before. -/
theorem active_eq {news : List (Notice.Kind × String)} (h : Relays n m news) :
    m.active = n.active := by
  rw [h.same]

end Relays

/-- An alert is no call. -/
theorem relays_alert (n : Node) (a : Alert) : Relays n (n.alert a) [] where
  same := rfl
  sends := ⟨[], by simp, rfl⟩

/-- In a cluster a notice is sent once, whether or not it gets through. -/
theorem relays_forward (hc : s.clustered = true) (notice : Notice) (uri : String) (n : Node) :
    Relays n (n.forward s notice uri) [notice.about] := by
  have hsend : Relays n (n.call (.send notice)) [notice.about] :=
    ⟨rfl, [notice], by simp, rfl⟩
  simp only [forward, hc, if_true]
  -- A failure to send leaves an alert, and an alert is no call.
  split
  · exact hsend
  · exact hsend.trans (relays_alert _ _)

/-- Where nobody else is to be told, telling is nothing. -/
theorem obey_change (s : Setup) (c : Catalog.Change) (n : Node)
    (h : (Activity.step s (.react c []) n).2 = some (.tell c [])) :
    n.obey s (.change c) = (Activity.step s (.react c []) n).1 := by
  have hreact : Activity.step s (.react c []) n =
      ((Activity.step s (.react c []) n).1, some (.tell c [])) := by
    rw [← h]
  rw [obey, Activity.perform, Activity.performAround, Activity.rank,
    Activity.performWithin_of_some hreact, Activity.performWithin_of_none rfl]
  rfl

/-! ### One errand -/

/-- A node that stands aside in a cluster hands a change on. -/
theorem relays_change (hc : s.clustered = true) (haside : n.aside s = true) (c : Catalog.Change) :
    Relays n (n.obey s (.change c)) (Errand.change c).heralds := by
  cases c with
  | added spec =>
    rw [obey_change s _ n rfl]
    cases spec with
    | flow f =>
      show Relays n (n.addFlow s f) _
      rw [addFlow_of_aside haside]
      exact relays_forward hc _ _ n
    | topology t => exact .refl n
  | updated spec =>
    rw [obey_change s _ n rfl]
    cases spec with
    | flow f =>
      show Relays n (n.update s (.flow f)) _
      rw [update_of_aside haside]
      exact (relays_forward hc _ _ n).trans (relays_forward hc _ _ _)
    | topology t => exact .refl n
  | deleted uri version =>
    -- A node that stands aside does not clear the catalog, so telling comes next.
    have htell : (Activity.step s (.react (.deleted uri version) []) n).2 =
        some (.tell (.deleted uri version) []) := by
      simp [Activity.step, haside]
    have hdelete : (Activity.step s (.react (.deleted uri version) []) n).1 =
        n.forwardRemoved s uri version := by
      simp [Activity.step, delete, haside]
    rw [obey_change s _ n htell, hdelete]
    exact relays_forward hc _ _ n

/-- A node that stands aside refuses every firing, and nothing comes of it. -/
theorem fire_of_aside (haside : n.aside s = true) (job : ScheduledJob) :
    n.fire s job = (n, some (.state .pending)) := by
  -- The firing is offered, and the node does not accept.
  have hoffered : Execution.Run.step (runner s) (.offered job.name job.payload) n =
      (n, .done (.state .pending)) := by
    simp [Execution.Run.step, runner, haside]
  rw [fire, Execution.Run.perform, Execution.Run.rank, Execution.Run.finishWithin, hoffered]

/-- What a node on standby in a cluster makes of an errand. -/
theorem relays_attend (hc : s.clustered = true) (hn : n.active = false) (e : Errand) :
    Relays n (n.attend s e).1 e.heralds ∧ (n.attend s e).2 = e.answer := by
  have haside : n.aside s = true := by
    simp [aside, standsAside, hc, hn]
  cases e with
  | change c => exact ⟨relays_change hc haside c, rfl⟩
  | notice m =>
    have hobey : n.attend s (.notice m) = (n.alert .noticeOnStandby, none) := by
      rw [attend, obey_notice_of_standby hn]
    rw [hobey]
    exact ⟨relays_alert n _, rfl⟩
  | fire job =>
    have hfire : n.attend s (.fire job) = (n, some (.state .pending)) := fire_of_aside haside job
    rw [hfire]
    exact ⟨.refl n, rfl⟩

/-! ### Any number of errands -/

/-- A node on standby in a cluster stays as it is but for its trace, however many errands
    it sees to and whether or not its notices get through.  The only calls it makes are to
    send notices: those of one errand after those of the other.  Every firing is pending. -/
theorem attendAll_of_standby (hc : s.clustered = true) (hn : n.active = false)
    (errands : List Errand) :
    (n.attendAll s errands).1 = { n with trace := (n.attendAll s errands).1.trace } ∧
      (∃ notices : List Notice, (n.attendAll s errands).1.calls = n.calls ++ notices.map .send ∧
        notices.map Notice.about = errands.flatMap Errand.heralds) ∧
      (n.attendAll s errands).2 = errands.map Errand.answer := by
  suffices h : Relays n (n.attendAll s errands).1 (errands.flatMap Errand.heralds) ∧
      (n.attendAll s errands).2 = errands.map Errand.answer from ⟨h.1.same, h.1.sends, h.2⟩
  induction errands generalizing n with
  | nil => exact ⟨.refl n, rfl⟩
  | cons e errands ih =>
    obtain ⟨hrelays, hanswer⟩ := relays_attend hc hn e
    -- The node is on standby still when the next errand comes up.
    have hn' : (n.attend s e).1.active = false := by
      rw [hrelays.active_eq]
      exact hn
    obtain ⟨hrest, hanswers⟩ := ih hn'
    constructor
    · rw [List.flatMap_cons]
      exact hrelays.trans hrest
    · show (n.attend s e).2 :: ((n.attend s e).1.attendAll s errands).2 = _
      rw [hanswer, hanswers, List.map_cons]

private def standbyFlow : Flow :=
  timed ⟨"flow://nightly", Eq.refl false⟩ ⟨"2", Eq.refl false⟩ "0 0 * * *"

/-- A cluster in which a notice gets lost if an even number of things has gone on record. -/
private def lossySetup : Setup :=
  .plain { Replies.reliable with
    send := fun n _ => if n.trace.length % 2 = 0 then some (.internal "channel full") else none }

/-- A node that has led, with a flow scheduled. -/
private def formerLeader : Node :=
  Node.initial.obeyAll lossySetup [.lead true, .put (.flow standbyFlow), .lead false]

/-- The node is told of a changed flow, its trigger fires, a notice comes in, and the flow
    is deleted: three notices go out, and the trigger stays. -/
theorem attendAll_former :
    ∃ job : ScheduledJob, formerLeader.jobs["flow://nightly"]? = some job ∧
      let errands : List Errand := [.change (.updated (.flow standbyFlow)), .fire job,
        .notice (.ofAdded .zero "flow://nightly"), .change (.deleted "flow://nightly" "2")]
      (formerLeader.attendAll lossySetup errands).1 =
          { formerLeader with trace := (formerLeader.attendAll lossySetup errands).1.trace } ∧
        (∃ notices : List Notice, (formerLeader.attendAll lossySetup errands).1.calls =
            formerLeader.calls ++ notices.map .send ∧
          notices.map Notice.about = [(.removed, "flow://nightly:2"), (.added, "flow://nightly"),
            (.removed, "flow://nightly:2")]) ∧
        (formerLeader.attendAll lossySetup errands).2 =
          [none, some (.state .pending), none, none] := by
  have hstandby : formerLeader.active = false := by decide +kernel
  have hinstalled : formerLeader.jobs["flow://nightly"]?.isSome = true := by decide +kernel
  obtain ⟨job, hjob⟩ := Option.isSome_iff_exists.1 hinstalled
  exact ⟨job, hjob, attendAll_of_standby rfl hstandby _⟩

end Node

end FlowCadence
