import FlowCadence.Engine.Basic
/-! # The engine among many tasks

Callers install and remove jobs, loops sleep and wake, firings queue and run, all at the
same time.  A move is one step of one of them, and whatever happens is a run of moves
in some order.  Calls that take several steps are runs with room for other moves in
between: `install`, `remove`, `shutdown` and `fire` come to such runs.

A loop may be ended wherever it waits, also by nobody in particular, and it holds on to
its lock until it goes.  One that was already waking when it was ended still sets off
its firing. -/

namespace FlowCadence.Engine

/-- One step of a caller, a loop or a firing. -/
inductive Move where
  /-- A caller who installs a job begins a loop for it. -/
  | launch (now : Instant) (job : ScheduledJob)
  /-- A caller makes a loop the one of the job of a name. -/
  | enlist (name : String) (number : Nat)
  /-- A caller takes the job of a name away. -/
  | withdraw (name : String)
  /-- A caller who removed a job drops its lock if nobody else holds on to it. -/
  | sweep (name : String)
  /-- A caller who removed all jobs drops the locks that nobody else holds on to. -/
  | sweepAll
  /-- A loop is ended. -/
  | endLoop (number : Nat)
  /-- A loop wakes and sets off a firing. -/
  | wake (now : Instant) (number : Nat)
  /-- A loop that was told that its firing is over sleeps again. -/
  | resume (now : Instant) (number : Nat)
  /-- A loop that is at its end goes. -/
  | reap (number : Nat)
  /-- A firing takes the step that it can take by itself. -/
  | advance (number : Nat)
  /-- The handler comes back from a firing, or breaks off. -/
  | finish (number : Nat) (broken : Bool)
  deriving DecidableEq

/-- The engine after a move.  A move that nobody can make changes nothing. -/
def step (e : Engine) : Move → Engine
  | .launch now job => (e.launch now job).1
  | .enlist name number => e.enlist name number
  | .withdraw name => e.withdraw name
  | .sweep name => e.sweep name
  | .sweepAll => e.sweepAll
  | .endLoop number => e.endLoop number
  | .wake now number =>
    match e.loop? number with
    | some l =>
      match l.stage with
      | .asleep (some _) => e.setOff now l
      | _ => e
    | none => e
  | .resume now number => e.resume now number
  | .reap number => e.reap number
  | .advance number =>
    match e.firing? number with
    | some f => e.advance f
    | none => e
  | .finish number broken =>
    match e.firing? number with
    | some f => if f.stage = .inside then (e.finish f broken).1 else e
    | none => e

/-- The engine after moves. -/
def run (e : Engine) (moves : List Move) : Engine := moves.foldl step e

/-- Moves may be made in two goes. -/
theorem run_append (e : Engine) (before after : List Move) :
    e.run (before ++ after) = (e.run before).run after := by
  simp [run]

/-- What every move keeps, every run keeps. -/
theorem run_keeps {P : Engine → Prop} (hstep : ∀ e move, P e → P (e.step move)) {e : Engine}
    (he : P e) (moves : List Move) : P (e.run moves) :=
  List.foldlRecOn moves _ he fun _ h move _ => hstep _ move h

/-! ### Calls as runs -/

/-- To install a job is to begin a loop and to enlist it. -/
theorem install_eq_run {e e' : Engine} {now : Instant} {job : ScheduledJob}
    (h : e.install now job = .ok e') :
    e' = e.run [.launch now job, .enlist job.name (e.launch now job).2] := by
  rw [install] at h
  split at h
  · cases h
  · simp only [Except.ok.injEq] at h
    exact h.symm

/-- To remove a job is to withdraw it and to sweep its lock. -/
theorem remove_eq_run (e : Engine) (name : String) :
    ∃ moves, (e.remove name).1 = e.run moves := by
  rw [remove]
  split
  · exact ⟨[.withdraw name, .sweep name], rfl⟩
  · exact ⟨[], rfl⟩

/-- To shut the engine down is to withdraw every job and to sweep all locks. -/
theorem shutdown_eq_run (e : Engine) :
    e.shutdown = e.run (e.jobs.keys.map .withdraw ++ [.sweepAll]) := by
  rw [run_append]
  show _ = ((e.jobs.keys.map Move.withdraw).foldl step e).sweepAll
  rw [List.foldl_map]
  rfl

/-- A loop that is due fires by waking. -/
theorem fire_eq_run (e : Engine) (now : Instant) (number : Nat) :
    ∃ moves, e.fire now number = e.run moves := by
  cases hl : e.loop? number with
  | none => exact ⟨[], by simp [fire, hl, run]⟩
  | some l =>
    cases hdue : l.isDue now with
    | false => exact ⟨[], by simp [fire, hl, hdue, run]⟩
    | true =>
      refine ⟨[.wake now number], ?_⟩
      have hasleep : ∃ due, l.stage = .asleep (some due) := by
        rw [Loop.isDue] at hdue
        split at hdue
        · next due hstage => exact ⟨due, hstage⟩
        · cases hdue
      obtain ⟨due, hstage⟩ := hasleep
      simp only [fire, hl, hdue, if_true, run, List.foldl_cons, List.foldl_nil, step, hstage]

end FlowCadence.Engine
