import FlowCadence.Alert
import FlowCadence.Execution.Tracker
import FlowCadence.Job.Trigger
/-! # Runs

A job runs for one of three reasons: its trigger fired, it was queued to run at
once, or somebody asked for it.  A run goes through stages, and others may act
between any two of them.  A firing is first offered to the runner, which may
refuse it, and is tracked while it lasts; after that all runs are alike until they
come back. -/

namespace FlowCadence.Execution

/-- What carries out runs, over states `σ`; a run under way is a `τ`. -/
structure Runner (σ τ : Type) where
  /-- Whether firings are accepted. -/
  accepts : σ → Bool
  /-- Begins a run for a configuration, for a listener or not. -/
  start : JobConfig → Bool → σ → σ × Except Failure τ
  /-- A run under way comes back. -/
  finish : τ → σ → σ × Except Failure Unit
  /-- The executions that the runner keeps track of. -/
  executions : σ → Tracker
  setExecutions : Tracker → σ → σ
  alert : Alert → σ → σ

/-- Why a job runs. -/
inductive Run.Origin where
  /-- The trigger of this name fired. -/
  | firing (name : String)
  /-- The job was queued to run at once. -/
  | queued
  /-- The job was asked for. -/
  | requested
  deriving DecidableEq, Repr

/-- A run at one of its stages. -/
inductive Run (τ : Type) where
  /-- A firing that the runner has not accepted yet. -/
  | offered (name : String) (payload : Payload)
  /-- A firing that the runner has accepted. -/
  | accepted (name : String) (payload : Payload)
  /-- A run that can start. -/
  | ready (origin : Run.Origin) (config : JobConfig) (listener : Bool)
  /-- A run under way. -/
  | underway (origin : Run.Origin) (run : τ)
  /-- A run that has come back. -/
  | returned (origin : Run.Origin) (result : Except Failure Unit)

/-- How a run ends for whoever waits for it. -/
inductive Run.Outcome where
  /-- A firing ends in a state; a refused one is still pending. -/
  | state (s : State)
  /-- A run that was asked for ends with its result. -/
  | result (r : Except Failure Unit)
  /-- Nobody waits for a queued run. -/
  | unheard

/-- Where a run goes next. -/
inductive Run.Progress (τ : Type) where
  | next (run : Run τ)
  | done (outcome : Run.Outcome)

/-- Whether the result is a success. -/
def succeeded (result : Except Failure Unit) : Bool :=
  match result with
  | .ok _ => true
  | .error _ => false

namespace Run

variable {σ τ : Type}

/-- How many stages a run has before it, at most. -/
def rank : Run τ → Nat
  | .offered .. => 5
  | .accepted .. => 4
  | .ready .. => 3
  | .underway .. => 2
  | .returned .. => 1

/-- A run comes back to whoever started it.  Failures of firings and of queued
    runs become alerts. -/
def close (r : Runner σ τ) (result : Except Failure Unit) : Origin → σ → σ × Outcome
  | .requested, w => (w, .result result)
  | .queued, w =>
    match result with
    | .ok _ => (w, .unheard)
    | .error f => (r.alert (.runFailed f) w, .unheard)
  | .firing name, w =>
    let (executions, state, fault) := (r.executions w).finish name (succeeded result)
    let w := r.setExecutions executions w
    let w := match fault with
      | some f => r.alert (.outOfSync f) w
      | none => w
    let w := match result with
      | .error f => r.alert (.firingFailed f) w
      | .ok _ => w
    (w, .state state)

/-- The next stage of a run. -/
def step (r : Runner σ τ) : Run τ → σ → σ × Progress τ
  | .offered name payload, w =>
    (w, if r.accepts w then .next (.accepted name payload) else .done (.state .pending))
  | .accepted name payload, w =>
    (r.setExecutions ((r.executions w).begin name) w,
      .next (.ready (.firing name) payload.effective payload.listener))
  | .ready origin config listener, w =>
    match r.start config listener w with
    | (w, .ok run) => (w, .next (.underway origin run))
    | (w, .error f) => (w, .next (.returned origin (.error f)))
  | .underway origin run, w =>
    let (w, result) := r.finish run w
    (w, .next (.returned origin result))
  | .returned origin result, w =>
    let (w, outcome) := close r result origin w
    (w, .done outcome)

/-- A run goes through `fuel` stages without a break; the answer is its outcome if
    it is over by then. -/
def finishWithin (r : Runner σ τ) : (fuel : Nat) → Run τ → σ → σ × Option Outcome
  | 0, _, w => (w, none)
  | fuel + 1, run, w =>
    match run.step r w with
    | (w, .done outcome) => (w, some outcome)
    | (w, .next run) => finishWithin r fuel run w

/-- A run goes through all its stages without a break. -/
def perform (r : Runner σ τ) (run : Run τ) (w : σ) : σ × Option Outcome :=
  run.finishWithin r run.rank w

/-- Every stage brings a run nearer to its end. -/
theorem rank_step {r : Runner σ τ} {run next : Run τ} {w w' : σ}
    (h : run.step r w = (w', .next next)) : next.rank < run.rank := by
  cases run with
  | offered name payload =>
    simp only [step, Prod.mk.injEq] at h
    split at h <;> cases h.2
    simp [rank]
  | accepted name payload => cases h; simp [rank]
  | ready origin config listener =>
    simp only [step] at h
    split at h <;> cases h <;> simp [rank]
  | underway origin run => cases h; simp [rank]
  | returned origin result => cases h

end Run

end FlowCadence.Execution
