import FlowCadence.Engine.Basic
import FlowCadence.Turnstile
/-! # The engine at work

The engine with a clock, whose steps are taken in one definite order: whoever can go
on does so in the order in which they became able to, each until it waits or is
over.  A firing inside the handler comes back at once, unless the gate of its job's
name is held. -/

namespace FlowCadence.Engine

/-- Something of the engine that goes on by itself. -/
inductive Actor where
  | loop (number : Nat)
  | firing (number : Nat)
  deriving DecidableEq, Repr

/-- The engine at work. -/
structure Clockwork where
  engine : Engine
  now : Instant
  /-- Where firings inside the handler can be kept back. -/
  gates : Gates Nat
  /-- Who can go on. -/
  ready : List Actor

namespace Clockwork

/-- A clockwork without jobs. -/
def ofWorkers (now : Instant) (workers : Nat) : Clockwork :=
  ⟨.ofWorkers workers, now, ∅, []⟩

/-- The firing comes back from the handler, or breaks off there. -/
def comeBack (breaks : ScheduledJob → Bool) (c : Clockwork) (f : Firing) : Clockwork :=
  let loops := c.engine.waitersFor f.number
  let (engine, served) := c.engine.finish f (breaks f.job)
  { c with engine, ready := c.ready ++ served.map .firing ++ loops.map .loop }

/-- A firing goes on for `fuel` steps, or until it waits or is over. -/
def goOnWithin (breaks : ScheduledJob → Bool) : (fuel : Nat) → Nat → Clockwork → Clockwork
  | 0, _, c => c
  | fuel + 1, number, c =>
    match c.engine.firing? number with
    | none => c
    | some f =>
      match f.stage with
      | .atLock | .atPool => c
      | .inside => c.comeBack breaks f
      | .placed =>
        let (gates, passes) := c.gates.arrive f.job.name number
        let c := { c with engine := c.engine.advance f, gates }
        if passes then goOnWithin breaks fuel number c else c
      | .fresh | .locked => goOnWithin breaks fuel number { c with engine := c.engine.advance f }

/-- A loop goes on: it goes if it is at its end, and sleeps again if its firing is over. -/
def goOnLoop (number : Nat) (c : Clockwork) : Clockwork :=
  { c with engine := ((c.engine.reap number).resume c.now number).reap number }

/-- An actor goes on until it waits or is over: a firing has four steps at most. -/
def goOn (breaks : ScheduledJob → Bool) : Actor → Clockwork → Clockwork
  | .loop number, c => goOnLoop number c
  | .firing number, c => goOnWithin breaks 4 number c

/-- Those who can go on do so, `fuel` of them, those whom they wake included. -/
def settleWithin (breaks : ScheduledJob → Bool) : (fuel : Nat) → Clockwork → Clockwork
  | 0, c => c
  | fuel + 1, c =>
    match c.ready with
    | [] => c
    | a :: ready => settleWithin breaks fuel (goOn breaks a { c with ready })

/-- Everybody who can go on does so.  A firing is woken twice at most, for its lock and
    for its place, and a loop once, when its firing is over. -/
def settle (breaks : ScheduledJob → Bool) (c : Clockwork) : Clockwork :=
  settleWithin breaks
    (c.ready.length + 2 * c.engine.firings.length + c.engine.loops.length) c

/-- Something is done to the engine, and the loops come to know. -/
def act (breaks : ScheduledJob → Bool) (c : Clockwork) (engine : Engine) : Clockwork :=
  settle breaks { c with engine, ready := c.ready ++ engine.loops.map fun l => .loop l.number }

/-- A second passes: every loop that is due sets off a firing. -/
def tick (breaks : ScheduledJob → Bool) (c : Clockwork) : Clockwork :=
  let now := Instant.ofSecond (c.now.second.toNat + 1)
  let due := (c.engine.loops.filter (·.isDue now)).map (·.number)
  let engine := due.foldl (fun e number => e.fire now number) c.engine
  let fresh := (engine.firings.drop c.engine.firings.length).map fun f => Actor.firing f.number
  settle breaks { c with engine, now, ready := c.ready ++ fresh }

/-- The gate of a name lets `n` firings come back. -/
def release (breaks : ScheduledJob → Bool) (c : Clockwork) (name : String) (n : Nat) : Clockwork :=
  let (gates, through) := c.gates.release name n
  settle breaks { c with gates, ready := c.ready ++ through.map .firing }

end Clockwork

end FlowCadence.Engine
