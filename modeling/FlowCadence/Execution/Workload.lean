import FlowCadence.Execution.Run
import FlowCadence.Turnstile
/-! # Workloads

Many runs on one runner.  Queued runs share a pool of workers.  A run under way
comes back on its own, unless its gate is held: then it waits until the gate lets
it through.  Runs that can go on do so in the order in which they became able to,
each until it waits or is over. -/

namespace FlowCadence.Execution

/-- A run, and the number under which somebody waits for it. -/
structure Task (τ : Type) where
  number : Option Nat
  run : Run τ

/-- A runner at work. -/
structure Workload (σ τ : Type) where
  state : σ
  /-- Where runs under way can be kept back. -/
  gates : Gates (Task τ)
  /-- The workers for queued runs. -/
  pool : Turnstile (Task τ)
  /-- The runs that can go on. -/
  woken : List (Task τ)
  /-- The outcomes of the runs that somebody waited for. -/
  outcomes : List (Nat × Run.Outcome)

namespace Workload

variable {σ τ : Type}

/-- How many workers a pool of the given size has: at least one. -/
def poolSize (workers : Nat) : Nat := max 1 workers

/-- A workload without runs. -/
def ofState (state : σ) (workers : Nat) : Workload σ τ :=
  ⟨state, ∅, .ofPlaces (poolSize workers), [], []⟩

/-- Whether a run queued to run at once. -/
def isQueued : Run τ → Bool
  | .ready .queued .. | .underway .queued _ | .returned .queued _ => true
  | _ => false

/-- A run is over: its outcome is kept for whoever waits for it, and a queued run
    hands its worker on. -/
def conclude (m : Workload σ τ) (t : Task τ) (outcome : Run.Outcome) : Workload σ τ :=
  let m := match t.number with
    | some n => { m with outcomes := m.outcomes ++ [(n, outcome)] }
    | none => m
  if isQueued t.run then
    let (pool, next) := m.pool.leave
    { m with pool, woken := m.woken ++ next.toList }
  else m

/-- A run that has got under way arrives at its gate.  The answer says whether it
    goes on at once. -/
def arrive (key : τ → String) (m : Workload σ τ) (t : Task τ) : Workload σ τ × Bool :=
  match t.run with
  | .underway _ run =>
    let (gates, passes) := m.gates.arrive (key run) t
    ({ m with gates }, passes)
  | _ => (m, true)

/-- A run goes on for `fuel` stages, or until it waits or is over. -/
def goOnWithin (r : Runner σ τ) (key : τ → String) : (fuel : Nat) → Task τ → Workload σ τ →
    Workload σ τ
  | 0, _, m => m
  | fuel + 1, t, m =>
    match t.run.step r m.state with
    | (state, .done outcome) => conclude { m with state } t outcome
    | (state, .next run) =>
      let t := { t with run }
      match arrive key { m with state } t with
      | (m, true) => goOnWithin r key fuel t m
      | (m, false) => m

/-- A run goes on until it waits or is over. -/
def goOn (r : Runner σ τ) (key : τ → String) (m : Workload σ τ) (t : Task τ) : Workload σ τ :=
  goOnWithin r key t.run.rank t m

/-- A run is queued: it goes on if a worker is free. -/
def queue (r : Runner σ τ) (key : τ → String) (m : Workload σ τ) (config : JobConfig)
    (listener : Bool) : Workload σ τ :=
  let t : Task τ := ⟨none, .ready .queued config listener⟩
  let entered := { m with pool := m.pool.enter t }
  if m.pool.isOpen then entered.goOn r key t else entered

/-- The woken runs go on, `fuel` of them, those that they wake included. -/
def settleWithin (r : Runner σ τ) (key : τ → String) : (fuel : Nat) → Workload σ τ → Workload σ τ
  | 0, m => m
  | fuel + 1, m =>
    match m.woken with
    | [] => m
    | t :: woken => settleWithin r key fuel ({ m with woken }.goOn r key t)

/-- All woken runs go on, those that they wake included: each of those leaves the
    queue of the pool. -/
def settle (r : Runner σ τ) (key : τ → String) (m : Workload σ τ) : Workload σ τ :=
  settleWithin r key (m.woken.length + m.pool.waiting.length) m

/-- The runs that get under way for a key wait from now on, at a gate of their own. -/
def hold (m : Workload σ τ) (key : String) : Workload σ τ := { m with gates := m.gates.hold key }

/-- The runs that get under way for a key do not wait from now on; those that wait
    already go on waiting. -/
def unhold (m : Workload σ τ) (key : String) : Workload σ τ :=
  { m with gates := m.gates.unhold key }

/-- The gate of a key lets `n` runs through. -/
def release (r : Runner σ τ) (keyOf : τ → String) (m : Workload σ τ) (key : String) (n : Nat) :
    Workload σ τ :=
  let (gates, through) := m.gates.release key n
  settle r keyOf { m with gates, woken := m.woken ++ through }

end Workload

end FlowCadence.Execution
