import FlowCadence.Node.Chore
import FlowCadence.Node.Schedule
/-! # The leadership loop

At every tick a node asks for the lease of the scheduler, or renews the lease that
it holds, and it leads or steps down as the answer says.  A node that is told to
stop steps down before it releases its lease.

The loop is always at one of a few stages.  `Loop.step` goes from one to the next,
and others may act in between; `Loop.tick` and `Loop.stop` take all steps of a tick
or of a stop.

A candidate is a node with its leadership loop.  The loop takes one step at a time, and the
node may do its chores between any two of them, but nobody else makes it lead or step down.
Whoever grants leases may answer each request in any way.  The candidate remembers what its loop
has exchanged with whoever grants leases, the latest exchange first, and whether the node was
leading when it made the request. -/

/-! ## Pace -/

namespace FlowCadence

/-- How a loop keeps time, in milliseconds. -/
structure Pace where
  interval : Nat
  /-- The time since the loop last came round. -/
  elapsed : Nat
  deriving DecidableEq, Repr

/-- Time passes; the answer says whether the loop comes round. -/
def Pace.advance (p : Pace) (millis : Nat) : Pace × Bool :=
  if p.interval ≤ p.elapsed + millis then ({ p with elapsed := 0 }, true)
  else ({ p with elapsed := p.elapsed + millis }, false)

end FlowCadence

/-! ## The loop -/

namespace FlowCadence.Leadership

/-- The scope of the lease that the leader of the scheduler holds. -/
def scope : String := "flow-scheduler"

/-- How a node takes part in elections. -/
structure Terms where
  /-- The name under which the node holds a lease. -/
  holder : String
  leaseSeconds : Nat
  deriving DecidableEq, Repr

/-- Where the loop stands. -/
inductive Loop where
  /-- Waiting for the next tick, with the lease that is held. -/
  | resting (held : Option Lease)
  /-- About to ask for a lease. -/
  | acquiring
  /-- About to renew the lease that is held. -/
  | renewing (lease : Lease)
  /-- A lease was granted: about to lead. -/
  | rising (lease : Lease)
  /-- The lease is lost: about to step down. -/
  | falling (lease : Lease)
  /-- About to step down, in order to release the lease. -/
  | leaving (lease : Lease)
  /-- About to release the lease. -/
  | releasing (lease : Lease)
  /-- At the end. -/
  | stopped
  deriving DecidableEq, Repr

/-- How whoever grants leases answers, over its states `σ`. -/
structure Granter (σ : Type) where
  answer : (r : Lease.Request) → σ → σ × r.Answer

namespace Loop

variable {σ : Type}

/-- The lease that the loop has in its hands. -/
def held : Loop → Option Lease
  | .resting held => held
  | .renewing lease | .rising lease | .falling lease => some lease
  | .leaving lease | .releasing lease => some lease
  | .acquiring | .stopped => none

/-- The loop after a tick came. -/
def wake : Loop → Loop
  | .resting none => .acquiring
  | .resting (some lease) => .renewing lease
  | loop => loop

/-- The loop after it was told to stop. -/
def quit : Loop → Loop
  | .resting none => .stopped
  | .resting (some lease) => .leaving lease
  | loop => loop

/-- Where the loop goes once it knows whether it was granted a lease. -/
def granted (n : Node) : Except Fault (Option Lease) → Loop × Node
  | .ok (some lease) => (.rising lease, n)
  | .ok none => (.resting none, n)
  | .error fault => (.resting none, n.alert (.leaseNotAcquired fault))

/-- One step of a loop: one request, or one change of leadership. -/
def step (s : Node.Setup) (t : Terms) (g : Granter σ) (loop : Loop) (n : Node) (w : σ) :
    Loop × Node × σ :=
  match loop with
  | .acquiring =>
    let r := Lease.Request.acquire scope t.holder t.leaseSeconds
    let (w, answer) := g.answer r w
    let (loop, n) := granted (n.call (.ask r)) answer
    (loop, n, w)
  | .renewing lease =>
    let r := Lease.Request.renew lease t.leaseSeconds
    let (w, answer) := g.answer r w
    let n := n.call (.ask r)
    match answer with
    | .ok true => (.resting (some lease), n, w)
    | .ok false => (.falling lease, n.alert .leaseLost, w)
    | .error fault => (.falling lease, n.alert (.leaseNotRenewed fault), w)
  | .rising lease => (.resting (some lease), n.lead s true, w)
  | .falling _ => (.resting none, n.lead s false, w)
  | .leaving lease => (.releasing lease, n.lead s false, w)
  | .releasing lease =>
    let r := Lease.Request.release lease
    let (w, answer) := g.answer r w
    let n := n.call (.ask r)
    match answer with
    | .ok _ => (.stopped, n, w)
    | .error fault => (.stopped, n.alert (.leaseNotReleased fault), w)
  | .resting held => (.resting held, n, w)
  | .stopped => (.stopped, n, w)

/-- How many steps the loop has before it rests, at most. -/
def rank : Loop → Nat
  | .resting _ | .stopped => 0
  | .rising _ | .falling _ | .releasing _ => 1
  | .acquiring | .renewing _ | .leaving _ => 2

/-- Takes `fuel` steps. -/
def steps (s : Node.Setup) (t : Terms) (g : Granter σ) :
    (fuel : Nat) → Loop → Node → σ → Loop × Node × σ
  | 0, loop, n, w => (loop, n, w)
  | fuel + 1, loop, n, w =>
    let (loop, n, w) := loop.step s t g n w
    steps s t g fuel loop n w

/-- Takes all steps until the loop rests. -/
def settle (s : Node.Setup) (t : Terms) (g : Granter σ) (loop : Loop) (n : Node) (w : σ) :
    Loop × Node × σ :=
  steps s t g loop.rank loop n w

/-- All steps of a tick. -/
def tick (s : Node.Setup) (t : Terms) (g : Granter σ) (loop : Loop) (n : Node) (w : σ) :
    Loop × Node × σ :=
  settle s t g loop.wake n w

/-- All steps of a stop. -/
def stop (s : Node.Setup) (t : Terms) (g : Granter σ) (loop : Loop) (n : Node) (w : σ) :
    Loop × Node × σ :=
  settle s t g loop.quit n w

/-- Whether the loop is at its end. -/
def isStopped : Loop → Bool
  | .stopped => true
  | _ => false

/-- Once the store has answered, one stage is left at most. -/
theorem rank_granted (n : Node) (answer : Except Fault (Option Lease)) :
    (granted n answer).1.rank ≤ 1 := by
  match answer with
  | .ok (some _) => exact Nat.le_refl 1
  | .ok none | .error _ => exact Nat.zero_le 1

/-- A step brings the loop closer to its rest. -/
theorem rank_step (s : Node.Setup) (t : Terms) (g : Granter σ) (loop : Loop) (n : Node) (w : σ) :
    (loop.step s t g n w).1.rank ≤ loop.rank - 1 := by
  cases loop with
  | acquiring => exact rank_granted _ _
  | renewing lease => simp only [step]; split <;> simp [rank]
  | releasing lease => simp only [step]; split <;> simp [rank]
  | _ => simp [step, rank]

end Loop

/-! ## Candidates -/

/-- A request as it was answered. -/
structure Exchange where
  request : Lease.Request
  answer : request.Answer
  /-- Whether the node was leading. -/
  leading : Bool

/-- A node with its leadership loop. -/
structure Candidate where
  loop : Loop
  node : Node
  /-- What has been exchanged, the latest first. -/
  past : List Exchange

namespace Candidate

/-- What can happen next. -/
inductive Move where
  /-- The time of a tick has come. -/
  | wake
  /-- The loop finds that it is to stop. -/
  | quit
  /-- The loop takes a step; a request that it makes is answered in this way. -/
  | step (replies : Node.Replies) (answer : (r : Lease.Request) → r.Answer)
  /-- The node does a chore. -/
  | work (replies : Node.Replies) (chore : Node.Chore)

/-- A candidate that has not asked for anything yet. -/
def start (n : Node) : Candidate := ⟨.resting none, n, []⟩

/-- Answers requests in this way, and keeps a record of them. -/
def recorder (answer : (r : Lease.Request) → r.Answer) (leading : Bool) : Granter (List Exchange) :=
  ⟨fun r past => (⟨r, answer r, leading⟩ :: past, answer r)⟩

/-- The candidate after a move. -/
def step (s : Node.Setup) (t : Terms) (c : Candidate) : Move → Candidate
  | .wake => { c with loop := c.loop.wake }
  | .quit => { c with loop := c.loop.quit }
  | .step replies answer =>
    let (loop, node, past) :=
      c.loop.step { s with replies } t (recorder answer c.node.active) c.node c.past
    ⟨loop, node, past⟩
  | .work replies chore => { c with node := chore.act { s with replies } c.node }

/-- The candidate after moves. -/
def run (s : Node.Setup) (t : Terms) (c : Candidate) (moves : List Move) : Candidate :=
  moves.foldl (step s t) c

end Candidate

end FlowCadence.Leadership
