import FlowCadence.Alert
import FlowCadence.Cron.Schedule
import FlowCadence.Job.Trigger
import FlowCadence.Turnstile
/-! # The scheduling engine

Every installed job has a loop that sleeps until the job's next fire time and then
sets off a firing.  A firing goes on by itself: replacing or removing the job ends
its loop, and firings under way still come to their end.

Firings of an exclusive job pass a lock that all loops and firings of that name
share, and then every firing passes a pool with a bounded number of places.  The
lock comes first, so that a firing that waits for its turn does not take up a
place.  The lock of a name is dropped once nobody can use it any more, which
`references` counts: the table of locks, every loop and every firing that was given
the lock.

The functions here are the single steps of the engine.  Whatever happens at the same
time happens in some order of these. -/

namespace FlowCadence

/-- Where the loop of a job stands. -/
inductive Engine.Loop.Stage where
  /-- Asleep until a fire time, or at the end if there is none left. -/
  | asleep (due : Option Instant)
  /-- Waiting until a firing is over. -/
  | awaiting (firing : Nat)
  /-- A firing that was waited for is over, and may have broken off. -/
  | told (broken : Bool)
  deriving DecidableEq, Repr

/-- The loop of a job. -/
structure Engine.Loop where
  number : Nat
  job : ScheduledJob
  /-- The lock that the loop was given. -/
  lock : Nat
  stage : Engine.Loop.Stage
  /-- The loop was ended, and goes as soon as it comes to know. -/
  ended : Bool
  deriving DecidableEq

/-- Where a firing stands. -/
inductive Engine.Firing.Stage where
  /-- Just set off. -/
  | fresh
  /-- Waiting for its lock. -/
  | atLock
  /-- Holding its lock, if it needs one. -/
  | locked
  /-- Waiting for a place in the pool. -/
  | atPool
  /-- Holding a place in the pool. -/
  | placed
  /-- Inside the handler. -/
  | inside
  deriving DecidableEq, Repr

/-- A firing of a job. -/
structure Engine.Firing where
  number : Nat
  job : ScheduledJob
  /-- The lock that the firing was given. -/
  lock : Nat
  stage : Engine.Firing.Stage
  deriving DecidableEq

/-- What goes on record. -/
inductive Engine.Event where
  /-- The handler was called for a firing. -/
  | began (job : ScheduledJob)
  /-- The handler came back. -/
  | finished (job : ScheduledJob)
  /-- The handler was asked to interrupt the firing of a job. -/
  | interrupted (name : String)
  | alert (a : Alert)
  deriving DecidableEq

/-- The scheduling engine. -/
structure Engine where
  /-- The loop of each installed job. -/
  jobs : Table Nat
  /-- The lock of each name. -/
  locks : Table Nat
  /-- Who holds and who awaits each lock. -/
  turns : Nat → Turnstile Nat
  /-- Who holds and who awaits the places in the pool. -/
  pool : Turnstile Nat
  loops : List Engine.Loop
  firings : List Engine.Firing
  /-- A number that was not given to anything yet. -/
  unused : Nat
  trace : List Engine.Event

namespace Engine

/-- How many places a pool of the given size has: at least one. -/
def poolSize (workers : Nat) : Nat := max 1 workers

/-- An engine without jobs. -/
def ofWorkers (workers : Nat) : Engine :=
  ⟨∅, ∅, fun _ => .ofPlaces 1, .ofPlaces (poolSize workers), [], [], 0, []⟩

/-- The engine after an event has gone on record. -/
def note (e : Engine) (event : Event) : Engine := { e with trace := e.trace ++ [event] }

/-- How many hold on to a lock. -/
def references (e : Engine) (lock : Nat) : Nat :=
  e.locks.toList.countP (fun entry => entry.2 = lock) +
    e.loops.countP (fun l => l.lock = lock) + e.firings.countP (fun f => f.lock = lock)

/-! ## Jobs -/

/-- The lock of a name, a new one if there is none. -/
def lockFor (e : Engine) (name : String) : Engine × Nat :=
  match e.locks[name]? with
  | some lock => (e, lock)
  | none => ({ e with locks := e.locks.insert name e.unused, unused := e.unused + 1 }, e.unused)

/-- A loop begins for a job, and the answer is its number. -/
def launch (e : Engine) (now : Instant) (job : ScheduledJob) : Engine × Nat :=
  let (e, lock) := e.lockFor job.name
  let loop : Loop := ⟨e.unused, job, lock, .asleep (job.schedule.nextAfter now), false⟩
  ({ e with loops := e.loops ++ [loop], unused := e.unused + 1 }, e.unused)

/-- A loop is ended. -/
def endLoop (e : Engine) (number : Nat) : Engine :=
  { e with loops := e.loops.map fun l => if l.number = number then { l with ended := true } else l }

/-- A loop becomes the one of the job of a name, and the one before it is ended. -/
def enlist (e : Engine) (name : String) (number : Nat) : Engine :=
  let e := match e.jobs[name]? with
    | some former => e.endLoop former
    | none => e
  { e with jobs := e.jobs.insert name number }

/-- The job of a name is no longer installed, and its loop is ended. -/
def withdraw (e : Engine) (name : String) : Engine :=
  match e.jobs[name]? with
  | some number => { e with jobs := e.jobs.erase name }.endLoop number
  | none => e

/-- The lock of a name is dropped if only the table of locks holds on to it. -/
def sweep (e : Engine) (name : String) : Engine :=
  match e.locks[name]? with
  | some lock =>
    if e.references lock = 1 then { e with locks := e.locks.erase name } else e
  | none => e

/-- No job is installed any longer, and every loop of one is ended. -/
def withdrawAll (e : Engine) : Engine := e.jobs.keys.foldl withdraw e

/-- Every lock is dropped that only the table of locks holds on to. -/
def sweepAll (e : Engine) : Engine :=
  { e with locks := e.locks.filter fun _ lock => decide (1 < e.references lock) }

/-- Installs a job, in the place of the one of that name. -/
def install (e : Engine) (now : Instant) (job : ScheduledJob) : Except Fault Engine :=
  if Text.isBlank job.name then .error (.validation "scheduled job name must not be empty")
  else
    let (e, number) := e.launch now job
    .ok (e.enlist job.name number)

/-- Removes a job.  The answer says whether there was one. -/
def remove (e : Engine) (name : String) : Engine × Bool :=
  if e.jobs.contains name then ((e.withdraw name).sweep name, true) else (e, false)

/-- Asks the handler of a job to interrupt its firing.  The answer says whether there
    is such a job. -/
def interrupt (e : Engine) (name : String) : Engine × Bool :=
  if e.jobs.contains name then (e.note (.interrupted name), true) else (e, false)

/-- Ends all loops. -/
def shutdown (e : Engine) : Engine := e.withdrawAll.sweepAll

/-- The names of the installed jobs, in ascending order. -/
def names (e : Engine) : List String := e.jobs.keys

/-! ## Loops -/

/-- The loop with a number. -/
def loop? (e : Engine) (number : Nat) : Option Loop := e.loops.find? fun l => l.number = number

/-- A loop goes to a stage. -/
def setLoop (e : Engine) (number : Nat) (stage : Loop.Stage) : Engine :=
  { e with loops := e.loops.map fun l => if l.number = number then { l with stage } else l }

/-- Whether a loop is at its end. -/
def Loop.isOver (l : Loop) : Bool := l.ended || l.stage = .asleep none

/-- Whether a loop has slept long enough. -/
def Loop.isDue (now : Instant) (l : Loop) : Bool :=
  match l.stage with
  | .asleep (some due) => !l.ended && decide (due.second ≤ now.second)
  | _ => false

/-- A loop that is at its end goes. -/
def reap (e : Engine) (number : Nat) : Engine :=
  { e with loops := e.loops.filter fun l => !(l.number = number && l.isOver) }

/-- A loop sets off a firing.  The loop of an exclusive job waits until the firing is over. -/
def setOff (e : Engine) (now : Instant) (l : Loop) : Engine :=
  let firing : Firing := ⟨e.unused, l.job, l.lock, .fresh⟩
  let stage := if l.job.exclusive then .awaiting e.unused
    else .asleep (l.job.schedule.nextAfter now)
  { e with firings := e.firings ++ [firing], unused := e.unused + 1 }.setLoop l.number stage

/-- A loop that is due sets off a firing. -/
def fire (e : Engine) (now : Instant) (number : Nat) : Engine :=
  match e.loop? number with
  | some l => if l.isDue now then e.setOff now l else e
  | none => e

/-- A loop that was told that its firing is over sleeps again.  A firing that broke
    off is an alert. -/
def resume (e : Engine) (now : Instant) (number : Nat) : Engine :=
  match e.loop? number with
  | some l =>
    match l.stage with
    | .told broken =>
      let e := if broken then e.note (.alert .firingLost) else e
      e.setLoop number (.asleep (l.job.schedule.nextAfter now))
    | _ => e
  | none => e

/-! ## Firings -/

/-- The firing with a number. -/
def firing? (e : Engine) (number : Nat) : Option Firing :=
  e.firings.find? fun f => f.number = number

/-- A firing goes to a stage. -/
def setFiring (e : Engine) (number : Nat) (stage : Firing.Stage) : Engine :=
  { e with firings := e.firings.map fun f => if f.number = number then { f with stage } else f }

/-- The engine with a turnstile for a lock. -/
def setTurns (e : Engine) (lock : Nat) (t : Turnstile Nat) : Engine :=
  { e with turns := fun other => if other = lock then t else e.turns other }

/-- A firing that was just set off takes its lock or waits for it; one that is not
    exclusive needs none. -/
def takeLock (e : Engine) (f : Firing) : Engine :=
  if f.job.exclusive then
    let t := e.turns f.lock
    (e.setTurns f.lock (t.enter f.number)).setFiring f.number
      (if t.isOpen then .locked else .atLock)
  else e.setFiring f.number .locked

/-- A firing takes a place in the pool or waits for one. -/
def takePlace (e : Engine) (f : Firing) : Engine :=
  { e with pool := e.pool.enter f.number }.setFiring f.number
    (if e.pool.isOpen then .placed else .atPool)

/-- The handler is called for a firing. -/
def callHandler (e : Engine) (f : Firing) : Engine :=
  (e.setFiring f.number .inside).note (.began f.job)

/-- A place in the pool becomes free, and goes to the firing that has waited longest. -/
def freePlace (e : Engine) : Engine × Option Nat :=
  let (pool, next) := e.pool.leave
  let e := { e with pool }
  (match next with
    | some number => e.setFiring number .placed
    | none => e, next)

/-- A lock becomes free, and goes to the firing that has waited longest. -/
def freeLock (e : Engine) (lock : Nat) : Engine × Option Nat :=
  let (t, next) := (e.turns lock).leave
  let e := e.setTurns lock t
  (match next with
    | some number => e.setFiring number .locked
    | none => e, next)

/-- The loops that wait for a firing are told that it is over. -/
def tell (e : Engine) (firing : Nat) (broken : Bool) : Engine :=
  { e with loops := e.loops.map fun l =>
      if l.stage = .awaiting firing then { l with stage := .told broken } else l }

/-- The loops that wait for a firing. -/
def waitersFor (e : Engine) (firing : Nat) : List Nat :=
  (e.loops.filter fun l => l.stage = .awaiting firing).map (·.number)

/-- A firing is over, because its handler came back or broke off: it frees its place
    and then its lock.  The answer lists the firings that were served. -/
def finish (e : Engine) (f : Firing) (broken : Bool) : Engine × List Nat :=
  let e := if broken then e else e.note (.finished f.job)
  let e := { e with firings := e.firings.filter fun g => g.number != f.number }
  let (e, served) := e.freePlace
  let (e, followed) := if f.job.exclusive then e.freeLock f.lock else (e, none)
  (e.tell f.number broken, served.toList ++ followed.toList)

/-- A firing takes the one step that it can take by itself before it is inside the
    handler; a firing that waits takes none. -/
def advance (e : Engine) (f : Firing) : Engine :=
  match f.stage with
  | .fresh => e.takeLock f
  | .locked => e.takePlace f
  | .placed => e.callHandler f
  | .atLock | .atPool | .inside => e

end Engine

end FlowCadence
