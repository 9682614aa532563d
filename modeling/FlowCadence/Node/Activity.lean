import FlowCadence.Node.Schedule
/-! # Activities

Changes of the catalog and notices from other nodes are dealt with in stages.  Each
stage is done under one lock, and others may act between any two of them: a spec
can change between being looked up and being scheduled.

`Activity.step` does one stage, and `Activity.perform` all of them without a break. -/

namespace FlowCadence.Node

/-- What a node still has to do about a notice or a change. -/
inductive Activity where
  /-- A notice has arrived. -/
  | notice (m : Notice)
  /-- A notice was let in: the flow it names is to be looked up. -/
  | resolve (m : Notice)
  /-- The catalog was asked for the flow that a notice names. -/
  | consult (kind : Notice.Kind) (uri : String)
  /-- A spec that a notice told of is to be added. -/
  | enter (spec : Spec)
  /-- A flow that is gone from the catalog is to be unscheduled. -/
  | leave (uri : String)
  /-- A spec is to be put into the catalog. -/
  | put (spec : Spec)
  /-- A spec is to be deleted from the catalog. -/
  | delete (uri : String)
  /-- The node is to act on a change, and then `others` are to be told. -/
  | react (change : Catalog.Change) (others : List String)
  /-- A deleted spec is to be cleared from the catalog, and then `others` are to be told. -/
  | clear (uri version : String) (others : List String)
  /-- Listeners are to be told of a change. -/
  | tell (change : Catalog.Change) (others : List String)
  deriving DecidableEq

namespace Activity

/-- How many stages an activity has before it, at most. -/
def rank : Activity → Nat
  | .notice _ => 4
  | .resolve _ => 3
  | .consult .. => 2
  | .enter _ | .leave _ => 1
  | .put _ | .delete _ => 4
  | .react .. => 3
  | .clear .. => 2
  | .tell .. => 1

/-- What to do about a flow once the catalog has answered.  A flow that a notice
    calls removed and that is still there was handed on, so it stays. -/
def afterLookUp (kind : Notice.Kind) (uri : String) (n : Node) :
    Except Fault (Option Spec) → Node × Option Activity
  | .ok (some spec) => (n, if kind = .added then some (.enter spec) else none)
  | .ok none =>
    if kind = .added then (n.alert .noticeUnknown, none) else (n, some (.leave uri))
  | .error fault =>
    (n.alert (if kind = .added then .noticeNotResolved fault else .removalNotReconciled fault),
      none)

/-- Asks the catalog for a flow, where there is one. -/
def lookUp (s : Setup) (kind : Notice.Kind) (uri : String) (n : Node) : Node × Option Activity :=
  if s.catalogued then (n.call (.lookUp uri), some (.consult kind uri))
  else afterLookUp kind uri n (.ok none)

/-- One stage of an activity, and what remains to be done. -/
def step (s : Setup) (a : Activity) (n : Node) : Node × Option Activity :=
  match a with
  | .notice m => if n.active then (n, some (.resolve m)) else (n.alert .noticeOnStandby, none)
  | .resolve m =>
    match m.kind with
    | .added => lookUp s .added m.payload n
    | .removed =>
      match m.removal with
      | .ok (uri, _) => lookUp s .removed uri n
      | .error refusal => (n.alert (.removalMalformed refusal.fault), none)
  | .consult kind uri => afterLookUp kind uri n (s.replies.lookUp n uri)
  | .enter spec => (n.add s spec, none)
  | .leave uri => (if n.active then n.unschedule s uri else n.alert .removalOnStandby, none)
  | .put spec =>
    let (catalog, change) := n.catalog.put spec
    ({ n with catalog }, some (.react change catalog.listeners))
  | .delete uri =>
    let (catalog, change?) := n.catalog.delete uri
    ({ n with catalog }, change?.map fun change => .react change catalog.listeners)
  | .react change others =>
    match change with
    | .added spec => (n.add s spec, some (.tell change others))
    | .updated spec => (n.update s spec, some (.tell change others))
    | .deleted uri version =>
      (n.delete s uri version,
        some (if n.aside s || !s.catalogued then .tell change others
          else .clear uri version others))
  | .clear uri version others =>
    let n := n.call (.clear uri)
    match s.replies.clear n uri with
    | none =>
      ({ n with catalog := n.catalog.remove uri }, some (.tell (.deleted uri version) others))
    | some fault => (n.alert (.notCleared ⟨.catalogCleanup, uri, fault⟩),
        some (.tell (.deleted uri version) others))
  | .tell change others =>
    (others.foldl (fun n name => n.call (.tell (name, change))) n, none)

/-- `fuel` stages of an activity without a break, except that `meanwhile` happens
    while the catalog is being asked. -/
def performWithin (s : Setup) (meanwhile : Node → Node) : (fuel : Nat) → Activity → Node → Node
  | 0, _, n => n
  | fuel + 1, a, n =>
    match a.step s n with
    | (n, none) => n
    | (n, some (.consult kind uri)) =>
      performWithin s meanwhile fuel (.consult kind uri) (meanwhile n)
    | (n, some a) => performWithin s meanwhile fuel a n

/-- All stages of an activity, with something that happens while the catalog is
    being asked. -/
def performAround (s : Setup) (meanwhile : Node → Node) (a : Activity) (n : Node) : Node :=
  performWithin s meanwhile a.rank a n

/-- All stages of an activity without a break. -/
def perform (s : Setup) (a : Activity) (n : Node) : Node := performAround s id a n

/-- An activity is over with a stage behind which nothing is left. -/
theorem performWithin_of_none {s : Setup} {a : Activity} {n m : Node} (h : a.step s n = (m, none))
    (meanwhile : Node → Node) (fuel : Nat) : a.performWithin s meanwhile (fuel + 1) n = m := by
  rw [performWithin, h]

/-- Otherwise it goes on with what the stage leaves. -/
theorem performWithin_of_some {s : Setup} {a b : Activity} {n m : Node}
    (h : a.step s n = (m, some b)) (fuel : Nat) :
    a.performWithin s id (fuel + 1) n = b.performWithin s id fuel m := by
  rw [performWithin, h]
  cases b <;> rfl

/-- What is left behind an answer of the catalog is one stage long. -/
theorem rank_afterLookUp {kind : Notice.Kind} {uri : String} {n n' : Node}
    {answer : Except Fault (Option Spec)} {b : Activity}
    (h : afterLookUp kind uri n answer = (n', some b)) : b.rank = 1 := by
  match answer with
  | .ok (some spec) => cases kind <;> simp [afterLookUp] at h; simp [← h.2, rank]
  | .ok none => cases kind <;> simp [afterLookUp] at h; simp [← h.2, rank]
  | .error fault => simp [afterLookUp] at h

/-- A question to the catalog leaves two stages at most. -/
theorem rank_lookUp {s : Setup} {kind : Notice.Kind} {uri : String} {n n' : Node} {b : Activity}
    (h : lookUp s kind uri n = (n', some b)) : b.rank ≤ 2 := by
  unfold lookUp at h
  split at h
  · cases h; simp [rank]
  · simp [rank_afterLookUp h]

/-- Every stage leaves fewer stages. -/
theorem rank_step {s : Setup} {a b : Activity} {n n' : Node} (h : a.step s n = (n', some b)) :
    b.rank < a.rank := by
  cases a with
  | notice m =>
    simp only [step] at h
    split at h <;> cases h
    simp [rank]
  | resolve m =>
    simp only [step] at h
    split at h
    · exact Nat.lt_succ_of_le (rank_lookUp h)
    · split at h
      · exact Nat.lt_succ_of_le (rank_lookUp h)
      · cases h
  | consult kind uri =>
    rw [rank_afterLookUp (show afterLookUp kind uri n _ = (n', some b) from h)]
    simp [rank]
  | enter spec => cases h
  | leave uri => cases h
  | put spec => cases h; simp [rank]
  | delete uri =>
    simp only [step, Prod.mk.injEq, Option.map_eq_some_iff] at h
    obtain ⟨_, _, _, rfl⟩ := h
    simp [rank]
  | react change others =>
    cases change with
    | added spec => cases h; simp [rank]
    | updated spec => cases h; simp [rank]
    | deleted uri version =>
      simp only [step, Prod.mk.injEq, Option.some.injEq] at h
      obtain ⟨_, rfl⟩ := h
      split <;> simp [rank]
  | clear uri version others =>
    simp only [step] at h
    split at h <;> cases h <;> simp [rank]
  | tell change others => cases h

end Activity

/-- What can be told to a node. -/
inductive Command where
  /-- The node starts or ceases to lead. -/
  | lead (active : Bool)
  /-- A spec was added, changed or deleted. -/
  | change (c : Catalog.Change)
  /-- A notice has arrived. -/
  | notice (m : Notice)
  /-- The trigger of a job is to be installed. -/
  | schedule (config : JobConfig) (listener : Bool)
  /-- A spec is to be put into the catalog, with the node as its listener. -/
  | put (spec : Spec)
  /-- A spec is to be deleted from the catalog, with the node as its listener. -/
  | delete (uri : String)
  deriving DecidableEq

/-- The node after a command was carried out without a break. -/
def obey (s : Setup) (n : Node) : Command → Node
  | .lead active => n.lead s active
  | .change c => (Activity.react c []).perform s n
  | .notice m => (Activity.notice m).perform s n
  | .schedule config listener => (n.schedule s config listener).1
  | .put spec => (Activity.put spec).perform s n
  | .delete uri => (Activity.delete uri).perform s n

/-- The node after commands were carried out one after another. -/
def obeyAll (s : Setup) (n : Node) (cs : List Command) : Node := cs.foldl (obey s) n

end FlowCadence.Node
