import FlowCadence.Engine.Moves
import FlowCadence.ForStd
/-! # What moves do to an engine

What an engine is like after its steps.  What is proved about runs of an engine rests on
these.

## Key results

* `spares_launch`, `spares_enlist`, `spares_withdraw`, `spares_sweep`, `spares_resume`:
  callers, and loops that set nothing off, leave the firings and their queues alone
* `finish_eq`, `freePlace_eq`, `freeLock_eq`: the end of a firing, step by step
* `firing?_setFiring`, `firing?_dismiss`, `firing?_setOff`: which firing is found under a number
* `wake_cases`, `advance_cases`, `finish_cases`: what moves of loops and firings can do
* `step_cases`: what any move can do to the firings -/

namespace FlowCadence.Engine

/-! ### Callers and loops -/

/-- The firings are as they were and wait where they did, and no number of one is given again. -/
structure SparesFirings (e e' : Engine) : Prop where
  firings : e'.firings = e.firings
  turns : e'.turns = e.turns
  pool : e'.pool = e.pool
  unused : e.unused ≤ e'.unused

theorem SparesFirings.of_eq {e e' : Engine} (h : e' = e) : e.SparesFirings e' := by
  rw [h]
  exact ⟨rfl, rfl, rfl, Nat.le_refl _⟩

/-- An installation makes a lock, if the name has none, and a loop, which has a number of its own.
-/
theorem spares_launch (e : Engine) (now : Instant) (job : ScheduledJob) :
    e.SparesFirings (e.launch now job).1 := by
  cases hl : e.locks[job.name]? with
  -- The name has a lock, so one number is given, to the loop.
  | some lock =>
    rw [launch, lockFor, hl]
    exact ⟨rfl, rfl, rfl, Nat.le_succ _⟩
  | none =>
    -- One number is given to the lock and one to the loop.
    rw [launch, lockFor, hl]
    exact ⟨rfl, rfl, rfl, Nat.le_add_right _ 2⟩

/-- When a loop is entered under its name, a loop that was there is told to end, and that is all. -/
theorem spares_enlist (e : Engine) (name : String) (number : Nat) :
    e.SparesFirings (e.enlist name number) := by
  rw [enlist]
  split <;> exact ⟨rfl, rfl, rfl, Nat.le_refl _⟩

/-- A removal tells the loop under the name to end. -/
theorem spares_withdraw (e : Engine) (name : String) : e.SparesFirings (e.withdraw name) := by
  rw [withdraw]
  split <;> exact ⟨rfl, rfl, rfl, Nat.le_refl _⟩

/-- A lock may be dropped from the table, but the queue for it stays. -/
theorem spares_sweep (e : Engine) (name : String) : e.SparesFirings (e.sweep name) := by
  rw [sweep]
  split
  -- Whether the name has a lock, and whether it is in use.
  · split <;> exact ⟨rfl, rfl, rfl, Nat.le_refl _⟩
  · exact ⟨rfl, rfl, rfl, Nat.le_refl _⟩

/-- A loop that goes on sleeps again or ends. -/
theorem spares_resume (e : Engine) (now : Instant) (number : Nat) :
    e.SparesFirings (e.resume now number) := by
  rw [resume]
  -- Either the loop is not there, or it is at another stage, or it has a next fire time or none.
  split
  · split
    · dsimp only
      split <;> exact ⟨rfl, rfl, rfl, Nat.le_refl _⟩
    · exact ⟨rfl, rfl, rfl, Nat.le_refl _⟩
  · exact ⟨rfl, rfl, rfl, Nat.le_refl _⟩

/-! ### The end of a firing, step by step -/

/-- What goes on record when a firing is over. -/
def noteFinish (e : Engine) (f : Firing) (broken : Bool) : Engine :=
  if broken then e else e.note (.finished f.job)

/-- A record is no concern of the firings. -/
theorem spares_noteFinish (e : Engine) (f : Firing) (broken : Bool) :
    e.SparesFirings (e.noteFinish f broken) := by
  rw [noteFinish]
  split <;> exact ⟨rfl, rfl, rfl, Nat.le_refl _⟩

/-- The engine without a firing. -/
def dismiss (e : Engine) (number : Nat) : Engine :=
  { e with firings := e.firings.filter fun f => f.number != number }

/-- Whoever is next in the pool is placed. -/
theorem freePlace_eq (e : Engine) : e.freePlace.1 =
    match e.pool.leave.2 with
    | some next => ({ e with pool := e.pool.leave.1 } : Engine).setFiring next .placed
    | none => { e with pool := e.pool.leave.1 } :=
  rfl

/-- Whoever is next in a queue has the lock. -/
theorem freeLock_eq (e : Engine) (lock : Nat) : (e.freeLock lock).1 =
    match (e.turns lock).leave.2 with
    | some next => (e.setTurns lock (e.turns lock).leave.1).setFiring next .locked
    | none => e.setTurns lock (e.turns lock).leave.1 :=
  rfl

/-- Locks have nothing to do with the pool. -/
theorem turns_freePlace (e : Engine) : e.freePlace.1.turns = e.turns := by
  rw [freePlace_eq]
  split <;> rfl

/-- At its end a firing is put on record and goes, its place and its lock are freed, and its loop is
told. -/
theorem finish_eq (e : Engine) (f : Firing) (broken : Bool) : (e.finish f broken).1 =
    (if f.job.exclusive then
      (((e.noteFinish f broken).dismiss f.number).freePlace.1.freeLock f.lock).1
      else ((e.noteFinish f broken).dismiss f.number).freePlace.1).tell f.number broken := by
  rw [finish]
  dsimp only
  split <;> rfl

/-! ### Loops and firings by their numbers -/

@[simp] theorem numbers_setFiring (e : Engine) (number : Nat) (stage : Firing.Stage) :
    (e.setFiring number stage).firings.map (·.number) = e.firings.map (·.number) :=
  map_map_ite (g := fun f => { f with stage }) (fun _ => rfl) e.firings

/-- What is found under a number has that number. -/
theorem number_of_firing? {e : Engine} {number : Nat} {f : Firing} (h : e.firing? number = some f) :
    f.number = number := by
  simpa using List.find?_some h

/-- A firing that goes on is found at its new stage, and the others as they were. -/
theorem firing?_setFiring (e : Engine) (number : Nat) (stage : Firing.Stage) (a : Nat) :
    (e.setFiring number stage).firing? a =
      if a = number then (e.firing? a).map fun f => { f with stage } else e.firing? a := by
  -- The search looks at numbers alone, and they stay.
  have hfind : (e.setFiring number stage).firing? a =
      (e.firing? a).map fun f => if f.number = number then { f with stage } else f := by
    rw [firing?, setFiring, List.find?_map]
    congr 2
    funext f
    simp only [Function.comp]
    split <;> rfl
  rw [hfind]
  cases hf : e.firing? a with
  | none => simp
  | some f =>
    -- What is found under `a` has the number `a`, so the two conditions are one.
    simp only [Option.map_some, number_of_firing? hf]
    split <;> rfl

/-- So it is found itself. -/
theorem firing?_setFiring_self {e : Engine} {f : Firing} (hf : e.firing? f.number = some f)
    (stage : Firing.Stage) :
    (e.setFiring f.number stage).firing? f.number = some { f with stage } := by
  rw [firing?_setFiring, if_pos rfl, hf]
  rfl

/-- What is found is that firing, now at the new stage, or another one, which is as it was. -/
theorem firing?_setFiring_cases {e : Engine} {f g : Firing} {stage : Firing.Stage} {a : Nat}
    (hf : e.firing? f.number = some f) (hg : (e.setFiring f.number stage).firing? a = some g) :
    (a = f.number ∧ g = { f with stage }) ∨ (a ≠ f.number ∧ e.firing? a = some g) := by
  by_cases heq : a = f.number
  · subst heq
    rw [firing?_setFiring_self hf] at hg
    exact .inl ⟨rfl, (Option.some.inj hg).symm⟩
  · rw [firing?_setFiring, if_neg heq] at hg
    exact .inr ⟨heq, hg⟩

/-- A firing that is gone is not found, and the others are. -/
theorem firing?_dismiss (e : Engine) (number a : Nat) :
    (e.dismiss number).firing? a = if a = number then none else e.firing? a := by
  rw [firing?, dismiss, List.find?_filter]
  split
  -- Under the number that is gone nothing is left that could be found.
  · next heq =>
    subst heq
    simp
  -- Under another number the two searches agree on every firing.
  · next hne =>
    rw [firing?]
    congr 1
    funext f
    by_cases hf : f.number = a <;> simp [hf, hne]

/-- A firing that is set off stands behind the others. -/
theorem firing?_setOff (e : Engine) (now : Instant) (l : Loop) (a : Nat) :
    (e.setOff now l).firing? a = (e.firing? a).or
      (if e.unused = a then some ⟨e.unused, l.job, l.lock, .fresh⟩ else none) := by
  show List.find? _ (e.firings ++ [_]) = _
  rw [List.find?_append, firing?]
  congr 1
  -- The new firing is asked last, and it is found by the number that was unused.
  by_cases heq : e.unused = a <;> simp [heq]

/-! ### Moves of loops and firings -/

/-- A loop that wakes sets off a firing, if it is there and asleep. -/
theorem wake_cases (e : Engine) (now : Instant) (number : Nat) :
    e.step (.wake now number) = e ∨
      ∃ l ∈ e.loops, e.step (.wake now number) = e.setOff now l := by
  rw [step]
  -- Whether the loop is there, and whether it is asleep.
  split
  · next l hl =>
    split
    · exact .inr ⟨l, List.mem_of_find?_eq_some hl, rfl⟩
    · exact .inl rfl
  · exact .inl rfl

/-- A firing goes on, if it is there. -/
theorem advance_cases (e : Engine) (number : Nat) :
    e.step (.advance number) = e ∨
      ∃ f, e.firing? f.number = some f ∧ e.step (.advance number) = e.advance f := by
  rw [step]
  split
  · next f hf =>
    obtain rfl := number_of_firing? hf
    exact .inr ⟨f, hf, rfl⟩
  · exact .inl rfl

/-- A firing is over, if it is there and its handler was called. -/
theorem finish_cases (e : Engine) (number : Nat) (broken : Bool) :
    e.step (.finish number broken) = e ∨
      ∃ f, e.firing? f.number = some f ∧ f.stage = .inside ∧
        e.step (.finish number broken) = (e.finish f broken).1 := by
  rw [step]
  split
  · next f hf =>
    obtain rfl := number_of_firing? hf
    split
    · next hstage => exact .inr ⟨f, hf, hstage, rfl⟩
    · exact .inl rfl
  · exact .inl rfl

/-- Firings are set off, go on and are over, and no other move comes near them. -/
theorem step_cases (e : Engine) (move : Move) :
    e.SparesFirings (e.step move) ∨
      (∃ now, ∃ l ∈ e.loops, e.step move = e.setOff now l) ∨
      (∃ f, e.firing? f.number = some f ∧ e.step move = e.advance f) ∨
      ∃ f broken, e.firing? f.number = some f ∧ f.stage = .inside ∧
        e.step move = (e.finish f broken).1 := by
  cases move with
  -- Callers, and the loops and tables that they change, leave the firings alone.
  | launch now job => exact .inl (spares_launch e now job)
  | enlist name number => exact .inl (spares_enlist e name number)
  | withdraw name => exact .inl (spares_withdraw e name)
  | sweep name => exact .inl (spares_sweep e name)
  | resume now number => exact .inl (spares_resume e now number)
  | sweepAll => exact .inl ⟨rfl, rfl, rfl, Nat.le_refl _⟩
  | endLoop number => exact .inl ⟨rfl, rfl, rfl, Nat.le_refl _⟩
  | reap number => exact .inl ⟨rfl, rfl, rfl, Nat.le_refl _⟩
  -- A loop that wakes, a firing that goes on and one that is over: each, if it is there.
  | wake now number =>
    rcases wake_cases e now number with heq | ⟨l, hl, heq⟩
    · exact .inl (.of_eq heq)
    · exact .inr (.inl ⟨now, l, hl, heq⟩)
  | advance number =>
    rcases advance_cases e number with heq | ⟨f, hf, heq⟩
    · exact .inl (.of_eq heq)
    · exact .inr (.inr (.inl ⟨f, hf, heq⟩))
  | finish number broken =>
    rcases finish_cases e number broken with heq | ⟨f, hf, hstage, heq⟩
    · exact .inl (.of_eq heq)
    · exact .inr (.inr (.inr ⟨f, broken, hf, hstage, heq⟩))

end FlowCadence.Engine
