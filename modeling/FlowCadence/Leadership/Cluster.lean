import FlowCadence.Leadership.LeaseStore
import FlowCadence.Leadership.Loop
import FlowCadence.Node.Activity
/-! # Clusters

The nodes of a cluster run for the lease of one scope, whose key is in a store that
they share.  They act in any order, one command to the store or one change of
leadership at a time, and each command may come to nothing or go unanswered.

A node that asks for the lease sends two commands.  Others may act between them, so
a member of a cluster has a stage there that `Loop` does not know; without anything
in between, the two halves are the one step of the loop (`Member.step_step`). -/

namespace FlowCadence.Leadership

/-- Where a member of a cluster stands. -/
inductive Stage where
  /-- At a stage of its loop. -/
  | loop (l : Loop)
  /-- The key of this lease was taken: about to limit its life. -/
  | confirming (lease : Lease)
  deriving DecidableEq, Repr

/-- The lease that a member has in its hands. -/
def Stage.lease : Stage → Option Lease
  | .loop l => l.held
  | .confirming lease => some lease

/-- A node with its leadership loop. -/
structure Member where
  setup : Node.Setup
  terms : Terms
  stage : Stage
  node : Node

namespace Member

/-- The member after its loop took a step to this stage. -/
def goTo (m : Member) (l : Loop) (n : Node) : Member := { m with stage := .loop l, node := n }

/-- The member after a tick or a stop, which its loop only minds while it rests. -/
def prompt (f : Loop → Loop) (m : Member) : Member :=
  match m.stage with
  | .loop l => m.goTo (f l) m.node
  | .confirming _ => m

/-- One whole step of the member's loop. -/
def stride (link : KeyStore.Link) (root unique : String) (l : Loop) (m : Member) (k : KeyStore) :
    Member × KeyStore :=
  let (l, n, k) := l.step m.setup m.terms ⟨Lease.serve link root unique⟩ m.node k
  (m.goTo l n, k)

/-- One step of a member: one command to the store, or one change of leadership. -/
def step (link : KeyStore.Link) (root unique : String) (m : Member) (k : KeyStore) :
    Member × KeyStore :=
  match m.stage with
  | .loop .acquiring =>
    let n := m.node.call (.ask (.acquire scope m.terms.holder m.terms.leaseSeconds))
    match Lease.attempt link root unique scope m.terms.holder m.terms.leaseSeconds k with
    | (k, .ok (some lease)) => ({ m with stage := .confirming lease, node := n }, k)
    | (k, answer) =>
      let (l, n) := Loop.granted n answer
      (m.goTo l n, k)
  | .confirming lease =>
    let (k, answer) := Lease.confirm link root lease m.terms.leaseSeconds k
    let (l, n) := Loop.granted m.node answer
    (m.goTo l n, k)
  | .loop l => m.stride link root unique l k

variable {link : KeyStore.Link} {root unique : String} {m : Member} {k k' : KeyStore}

/-- What the member makes of the answer to its taking the key. -/
theorem step_acquiring {answer : Except Fault (Option Lease)} (h : m.stage = .loop .acquiring)
    (ha : Lease.attempt link root unique scope m.terms.holder m.terms.leaseSeconds k =
      (k', answer)) :
    m.step link root unique k =
      let n := m.node.call (.ask (.acquire scope m.terms.holder m.terms.leaseSeconds))
      match answer with
      | .ok (some lease) => ({ m with stage := .confirming lease, node := n }, k')
      | answer => (m.goTo (Loop.granted n answer).1 (Loop.granted n answer).2, k') := by
  match answer with
  | .ok (some lease) => simp [step, h, ha]
  | .ok none => simp [step, h, ha]
  | .error fault => simp [step, h, ha]

/-- What the member makes of the answer to its limiting the life of the key. -/
theorem step_confirming {lease : Lease} (h : m.stage = .confirming lease)
    {answer : Except Fault (Option Lease)}
    (hc : Lease.confirm link root lease m.terms.leaseSeconds k = (k', answer)) :
    m.step link root unique k =
      (m.goTo (Loop.granted m.node answer).1 (Loop.granted m.node answer).2, k') := by
  simp [step, h, hc]

/-- Everything else the member does as its loop does. -/
theorem step_loop {l : Loop} (h : m.stage = .loop l) (hl : l ≠ .acquiring) :
    m.step link root unique k = m.stride link root unique l k := by
  cases l <;> simp_all [step]

/-- With nothing in between, the two halves of an acquisition are one step of the loop. -/
theorem step_step (h : m.stage = .loop .acquiring) :
    let (first, between) := m.step link root unique k
    (match first.stage with
      | .confirming _ => first.step link root unique between
      | .loop _ => (first, between)) = m.stride link root unique .acquiring k := by
  have hwhole := Lease.serve_acquire link root unique scope m.terms.holder m.terms.leaseSeconds k
  unfold stride Loop.step
  dsimp only
  rw [hwhole]
  cases ha : Lease.attempt link root unique scope m.terms.holder m.terms.leaseSeconds k with
  | mk k' answer =>
    rw [step_acquiring h ha]
    match answer with
    | .ok (some lease) => exact step_confirming rfl rfl
    | .ok none => rfl
    | .error fault => rfl

end Member

/-- The members of a cluster, by their names, and the store they share. -/
structure Cluster (ι : Type) where
  members : ι → Member
  store : KeyStore

namespace Cluster

variable {ι : Type}

/-- What can happen next in a cluster. -/
inductive Move (ι : Type) where
  /-- A tick comes for a member. -/
  | wake (i : ι)
  /-- A member is told to stop. -/
  | quit (i : ι)
  /-- A member takes a step, over a link to the store, with something unique for the
      token of a lease. -/
  | step (i : ι) (link : KeyStore.Link) (unique : String)
  /-- A member does a stage of something else. -/
  | work (i : ι) (a : Node.Activity)

/-- Members that have not yet asked for anything, around a store. -/
def start (crew : ι → Node.Setup × Terms) (store : KeyStore) : Cluster ι :=
  ⟨fun i => ⟨(crew i).1, (crew i).2, .loop (.resting none), .initial⟩, store⟩

variable [DecidableEq ι]

/-- The cluster with another state of one member and of the store. -/
def put (c : Cluster ι) (i : ι) (m : Member) (store : KeyStore) : Cluster ι :=
  ⟨fun j => if j = i then m else c.members j, store⟩

/-- The cluster after a move, with the keys under `root`. -/
def step (root : String) (c : Cluster ι) : Move ι → Cluster ι
  | .wake i => c.put i ((c.members i).prompt .wake) c.store
  | .quit i => c.put i ((c.members i).prompt .quit) c.store
  | .step i link unique =>
    let (m, store) := (c.members i).step link root unique c.store
    c.put i m store
  | .work i a =>
    let m := c.members i
    c.put i { m with node := (a.step m.setup m.node).1 } c.store

/-- The cluster after moves. -/
def run (root : String) (c : Cluster ι) (moves : List (Move ι)) : Cluster ι :=
  moves.foldl (step root) c

end Cluster

end FlowCadence.Leadership
