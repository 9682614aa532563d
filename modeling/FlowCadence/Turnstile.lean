import FlowCadence.Properties
/-! # Turnstiles and gates

A turnstile lets a bounded number of users in at a time and keeps the others
waiting in the order of their arrival.  Whoever leaves hands the place to the one
who has waited longest, so nobody slips in between.

Gates are places, by key, where what is under way can be kept back.  While a gate is held,
whoever arrives waits until the gate lets it through; a gate that is not held lets
everybody through, except those who wait there already.

* `enter_of_isOpen`             arriving at an open turnstile takes a free place
* `Fair.enter`, `Fair.leave`    nobody waits while a place is free -/

namespace FlowCadence

/-- A turnstile with users `α`. -/
structure Turnstile (α : Type) where
  /-- How many may still come in. -/
  free : Nat
  /-- Who waits, the first to be served in front. -/
  waiting : List α
  deriving DecidableEq, Repr

namespace Turnstile

variable {α : Type}

/-- A turnstile that lets `n` users in at a time. -/
def ofPlaces (n : Nat) : Turnstile α := ⟨n, []⟩

/-- Whether a new arrival comes in at once. -/
def isOpen (t : Turnstile α) : Bool := t.free != 0 && t.waiting.isEmpty

/-- Somebody arrives: comes in if the turnstile is open, and waits otherwise. -/
def enter (t : Turnstile α) (a : α) : Turnstile α :=
  if t.isOpen then { t with free := t.free - 1 } else { t with waiting := t.waiting ++ [a] }

/-- A place becomes free: it goes to the first who waits, if somebody does. -/
def leave (t : Turnstile α) : Turnstile α × Option α :=
  match t.waiting with
  | [] => ({ t with free := t.free + 1 }, none)
  | a :: rest => ({ t with waiting := rest }, some a)

/-- Several places become free: those who come in, in their order. -/
def widen (t : Turnstile α) (n : Nat) : Turnstile α × List α :=
  (⟨t.free + (n - t.waiting.length), t.waiting.drop n⟩, t.waiting.take n)

/-- That is so while a place is free and nobody waits. -/
theorem isOpen_iff {t : Turnstile α} : t.isOpen = true ↔ t.free ≠ 0 ∧ t.waiting = [] := by
  rw [isOpen, Bool.and_eq_true, bne_iff_ne, List.isEmpty_iff]

/-- Who finds a place takes it. -/
theorem enter_of_isOpen {t : Turnstile α} (h : t.isOpen) (a : α) :
    t.enter a = { t with free := t.free - 1 } := by
  simp [enter, h]

/-- Who finds none waits behind the others. -/
theorem enter_of_not_isOpen {t : Turnstile α} (h : t.isOpen = false) (a : α) :
    t.enter a = { t with waiting := t.waiting ++ [a] } := by
  simp [enter, h]

/-- A place is free only while nobody waits. -/
def Fair (t : Turnstile α) : Prop := t.free = 0 ∨ t.waiting = []

/-- At first nobody waits. -/
theorem fair_ofPlaces (n : Nat) : (ofPlaces n : Turnstile α).Fair := .inr rfl

/-- A fair turnstile stays fair when somebody comes. -/
theorem Fair.enter {t : Turnstile α} (h : t.Fair) (a : α) : (t.enter a).Fair := by
  unfold Turnstile.enter isOpen
  rcases h with h | h
  · simp [h, Fair]
  · by_cases hf : t.free = 0 <;> simp [h, hf, Fair]

/-- It stays fair when somebody leaves. -/
theorem Fair.leave {t : Turnstile α} (h : t.Fair) : t.leave.1.Fair := by
  unfold Turnstile.leave
  rcases h with h | h
  · cases hw : t.waiting <;> simp [h, Fair]
  · simp [h, Fair]

end Turnstile

/-! ## Gates -/

/-- A place where arrivals can be kept back. -/
structure Gate (α : Type) where
  /-- Whoever arrives from now on waits. -/
  held : Bool
  turns : Turnstile α
  deriving DecidableEq

/-- The gates by key; where there is none, everybody passes. -/
abbrev Gates (α : Type) := Table (Gate α)

namespace Gates

variable {α : Type}

/-- A new gate that is held takes the place of the one under a key. -/
def hold (g : Gates α) (key : String) : Gates α := g.insert key ⟨true, .ofPlaces 0⟩

/-- The gate under a key is no longer held. -/
def unhold (g : Gates α) (key : String) : Gates α :=
  match g[key]? with
  | none => g
  | some gate => g.insert key { gate with held := false }

/-- Somebody arrives.  The answer says whether it passes at once. -/
def arrive (g : Gates α) (key : String) (a : α) : Gates α × Bool :=
  match g[key]? with
  | none => (g, true)
  | some gate =>
    if gate.held then (g.insert key { gate with turns := gate.turns.enter a }, gate.turns.isOpen)
    else (g, true)

/-- The gate under a key lets `n` through, now or when they arrive.  The answer lists
    those who waited. -/
def release (g : Gates α) (key : String) (n : Nat) : Gates α × List α :=
  match g[key]? with
  | none => (g, [])
  | some gate =>
    let (turns, through) := gate.turns.widen n
    (g.insert key { gate with turns }, through)

end Gates

end FlowCadence
