import FlowCadence.Proofs.Engine.Effect
import Mathlib.Data.List.Nodup
/-! # Firings take turns

A lock lets one firing in at a time.  Whoever is let in found the lock free or was the
first in its queue, and the firing before it is over by then.  That a firing which waits
in a queue is let in, and nobody else, takes that the queues hold the numbers of those
that are waiting there, each once.

## Key results

* `Turnstile.Serves.enter`, `Turnstile.Serves.leave`: a turnstile of one place
* `TakesTurns.advance`, `TakesTurns.finish`: the steps of a firing
* `TakesTurns.setOff`: a new firing -/

namespace FlowCadence

/-! ### Turnstiles of one place -/

namespace Turnstile

variable {α : Type} {t : Turnstile α} {inside waits : α → Prop}

/-- A turnstile has let one user in at most, and those in its queue are waiting. -/
structure Serves (t : Turnstile α) (inside waits : α → Prop) : Prop where
  free_le : t.free ≤ 1
  /-- A free place means that nobody is inside. -/
  vacant : t.free ≠ 0 → ∀ a, ¬ inside a
  alone : ∀ a b, inside a → inside b → a = b
  queue : ∀ a ∈ t.waiting, waits a
  nodup : t.waiting.Nodup

/-- A new turnstile of one place serves, as nobody is inside or waits. -/
theorem serves_ofPlaces (h : ∀ a, ¬ inside a) : (ofPlaces 1 : Turnstile α).Serves inside waits where
  free_le := Nat.le_refl 1
  vacant _ := h
  alone a _ ha := absurd ha (h a)
  queue _ ha := by cases ha
  nodup := List.nodup_nil

namespace Serves

/-- Users may go, and others may come to wait elsewhere. -/
theorem mono (h : t.Serves inside waits) {inside' waits' : α → Prop}
    (hin : ∀ a, inside' a → inside a) (hwaits : ∀ a ∈ t.waiting, waits a → waits' a) :
    t.Serves inside' waits' where
  free_le := h.free_le
  vacant hfree a ha := h.vacant hfree a (hin a ha)
  alone a b ha hb := h.alone a b (hin a ha) (hin b hb)
  queue a ha := hwaits a ha (h.queue a ha)
  nodup := h.nodup

/-- A new user is inside if the turnstile was open, and waits otherwise. -/
theorem enter (h : t.Serves inside waits) {a : α} (hnew : ¬ waits a)
    {inside' waits' : α → Prop}
    (hin : ∀ b, inside' b → (b = a ∧ t.isOpen = true) ∨ inside b)
    (hwaits : ∀ b, waits b → waits' b) (ha : t.isOpen = false → waits' a) :
    (t.enter a).Serves inside' waits' := by
  cases hopen : t.isOpen with
  | true =>
    rw [enter_of_isOpen hopen]
    -- There is a free place, which the new user takes.
    have hfree : t.free ≠ 0 := (isOpen_iff.1 hopen).1
    -- The place was free, so the new user is the only one.
    have hone : ∀ b, inside' b → b = a := by
      intro b hb
      rcases hin b hb with ⟨heq, _⟩ | hb
      · exact heq
      · exact absurd hb (h.vacant hfree b)
    have hle := h.free_le
    exact {
      free_le := by dsimp only; omega
      vacant := fun hne => absurd (by dsimp only; omega) hne
      alone := fun b c hb hc => (hone b hb).trans (hone c hc).symm
      queue := fun b hb => hwaits b (h.queue b hb)
      nodup := h.nodup }
  -- The turnstile is closed, so the new user goes to the end of the queue.
  | false =>
    rw [enter_of_not_isOpen hopen]
    have hold : ∀ b, inside' b → inside b := by
      intro b hb
      rcases hin b hb with ⟨_, habs⟩ | hb
      · rw [hopen] at habs
        cases habs
      · exact hb
    exact {
      free_le := h.free_le
      vacant := fun hfree b hb => h.vacant hfree b (hold b hb)
      alone := fun b c hb hc => h.alone b c (hold b hb) (hold c hc)
      queue := by
        intro b hb
        rcases List.mem_append.1 hb with hb | hb
        · exact hwaits b (h.queue b hb)
        · rw [List.mem_singleton.1 hb]
          exact ha hopen
      -- A user that was waiting already would be queued twice, but the new one was not.
      nodup := by
        rw [← List.concat_eq_append]
        exact h.nodup.concat fun ha => hnew (h.queue a ha) }

/-- Once its user has gone, a turnstile with no place lets the next one in. -/
theorem leave (h : t.Serves inside waits) (hfree : t.free = 0)
    {inside' waits' : α → Prop} (hin : ∀ b, inside' b → t.leave.2 = some b)
    (hwaits : ∀ b, waits b → t.leave.2 ≠ some b → waits' b) :
    t.leave.1.Serves inside' waits' := by
  unfold Turnstile.leave at hin hwaits ⊢
  -- Whether anybody waits decides between a free place and the next user.
  cases hw : t.waiting with
  | nil =>
    simp only [hw] at hin hwaits ⊢
    exact {
      free_le := by dsimp only; omega
      vacant := fun _ b hb => by cases hin b hb
      alone := fun b _ hb => by cases hin b hb
      queue := fun b hb => by cases hb
      nodup := List.nodup_nil }
  | cons a rest =>
    simp only [hw] at hin hwaits ⊢
    have hnodup := h.nodup
    rw [hw] at hnodup
    obtain ⟨hnext, hrest⟩ := List.nodup_cons.1 hnodup
    -- The first in the queue is the one that is inside from now on.
    exact {
      free_le := h.free_le
      vacant := fun hne => absurd hfree hne
      alone := fun b c hb hc => Option.some.inj ((hin b hb).symm.trans (hin c hc))
      queue := by
        intro b hb
        refine hwaits b (h.queue b (by rw [hw]; exact List.mem_cons_of_mem _ hb)) ?_
        rintro ⟨⟩
        exact hnext hb
      nodup := hrest }

end Serves

/-- Whoever is let in was waiting. -/
theorem mem_of_leave {a : α} (h : t.leave.2 = some a) : a ∈ t.waiting := by
  unfold Turnstile.leave at h
  -- Nobody was in the queue, so nobody was let in.
  split at h
  · cases h
  · next b rest hw =>
    rw [hw, Option.some.inj h]
    exact List.mem_cons_self

end Turnstile

namespace Engine

variable {e : Engine}

/-! ### Numbers of firings -/

/-- Firings have numbers of their own, and none has a number that is still to be given. -/
structure Numbered (e : Engine) : Prop where
  lone : (e.firings.map (·.number)).Nodup
  fresh : ∀ number ∈ e.firings.map (·.number), number < e.unused

namespace Numbered

/-- Without firings there are no numbers. -/
theorem ofWorkers (workers : Nat) : (ofWorkers workers).Numbered where
  lone := List.nodup_nil
  fresh _ hn := by cases hn

/-- Firings may go while numbers are given to others. -/
theorem of_sublist (h : e.Numbered) {e' : Engine}
    (hnumbers : (e'.firings.map (·.number)).Sublist (e.firings.map (·.number)))
    (hunused : e.unused ≤ e'.unused) : e'.Numbered where
  lone := h.lone.sublist hnumbers
  fresh number hn := Nat.lt_of_lt_of_le (h.fresh number (hnumbers.subset hn)) hunused

/-- A firing keeps its number at every stage. -/
theorem setFiring (h : e.Numbered) (number : Nat) (stage : Firing.Stage) :
    (e.setFiring number stage).Numbered :=
  h.of_sublist (by rw [numbers_setFiring]) (Nat.le_refl _)

/-- A firing that goes on keeps its number. -/
theorem advance (h : e.Numbered) (f : Firing) : (e.advance f).Numbered := by
  rw [Engine.advance]
  -- At each stage all that happens to the firings is that one changes its stage.
  split
  · rw [takeLock]
    split
    · exact (h.setFiring f.number _).of_sublist (List.Sublist.refl _) (Nat.le_refl _)
    · exact h.setFiring _ _
  · exact (h.setFiring f.number _).of_sublist (List.Sublist.refl _) (Nat.le_refl _)
  · exact (h.setFiring f.number _).of_sublist (List.Sublist.refl _) (Nat.le_refl _)
  all_goals exact h

/-- A place that is passed on changes the stage of a firing. -/
theorem freePlace (h : e.Numbered) : e.freePlace.1.Numbered := by
  rw [freePlace_eq]
  split
  · exact (h.setFiring _ _).of_sublist (List.Sublist.refl _) (Nat.le_refl _)
  · exact h.of_sublist (List.Sublist.refl _) (Nat.le_refl _)

/-- A lock that is passed on changes the stage of a firing. -/
theorem freeLock (h : e.Numbered) (lock : Nat) : (e.freeLock lock).1.Numbered := by
  rw [freeLock_eq]
  split
  · exact (h.setFiring _ _).of_sublist (List.Sublist.refl _) (Nat.le_refl _)
  · exact h.of_sublist (List.Sublist.refl _) (Nat.le_refl _)

/-- The number of a firing that is gone is not given again. -/
theorem dismiss (h : e.Numbered) (number : Nat) : (e.dismiss number).Numbered :=
  h.of_sublist (List.filter_sublist.map _) (Nat.le_refl _)

/-- Numbers that are given to loops and locks are not given to firings. -/
theorem of_spared (h : e.Numbered) {e' : Engine} (hspared : e.SparesFirings e') : e'.Numbered :=
  h.of_sublist (by rw [hspared.firings]) hspared.unused

/-- When a firing is over, the others keep their numbers. -/
theorem finish (h : e.Numbered) (f : Firing) (broken : Bool) : (e.finish f broken).1.Numbered := by
  have hgone : ((e.noteFinish f broken).dismiss f.number).Numbered :=
    (h.of_spared (spares_noteFinish e f broken)).dismiss f.number
  rw [finish_eq]
  refine Numbered.of_sublist (e := if f.job.exclusive then _ else _) ?_ (List.Sublist.refl _)
    (Nat.le_refl _)
  split
  · exact hgone.freePlace.freeLock f.lock
  · exact hgone.freePlace

/-- A new firing has the number that was unused. -/
theorem setOff (h : e.Numbered) (now : Instant) (l : Loop) : (e.setOff now l).Numbered := by
  -- It stands behind the others.
  have hnumbers : (e.setOff now l).firings.map (·.number) =
      e.firings.map (·.number) ++ [e.unused] := by
    simp [Engine.setOff, setLoop]
  refine ⟨?_, ?_⟩
  · rw [hnumbers, ← List.concat_eq_append]
    -- All that were given before are smaller.
    exact h.lone.concat fun hn => Nat.lt_irrefl _ (h.fresh _ hn)
  · intro number hn
    show number < e.unused + 1
    rw [hnumbers] at hn
    rcases List.mem_append.1 hn with hn | hn
    · have hlt := h.fresh number hn
      omega
    · rw [List.mem_singleton.1 hn]
      omega

end Numbered

/-! ### Whose turn it is -/

/-- Whether a firing at a stage has taken its lock, if it needs one. -/
def Firing.Stage.isPastLock : Firing.Stage → Bool
  | .locked | .atPool | .placed | .inside => true
  | .fresh | .atLock => false

/-- A firing has taken a lock. -/
def Holds (e : Engine) (lock number : Nat) : Prop :=
  ∃ f, e.firing? number = some f ∧ f.job.exclusive = true ∧ f.lock = lock ∧
    f.stage.isPastLock = true

/-- A firing waits for a lock. -/
def AtLock (e : Engine) (lock number : Nat) : Prop :=
  ∃ f, e.firing? number = some f ∧ f.job.exclusive = true ∧ f.lock = lock ∧ f.stage = .atLock

/-- A firing waits for a place in the pool. -/
def AtPool (e : Engine) (number : Nat) : Prop :=
  ∃ f, e.firing? number = some f ∧ f.stage = .atPool

/-- Every lock serves one firing at a time, and those in a queue are waiting in it. -/
structure TakesTurns (e : Engine) : Prop where
  turns : ∀ lock, (e.turns lock).Serves (e.Holds lock) (e.AtLock lock)
  pool : e.pool.waiting.Nodup
  queued : ∀ number ∈ e.pool.waiting, e.AtPool number

/-- A firing is found by its number. -/
theorem Numbered.firing?_eq (h : e.Numbered) {f : Firing} (hf : f ∈ e.firings) :
    e.firing? f.number = some f := by
  cases hg : e.firing? f.number with
  -- Its own number is found, so the search cannot come to nothing.
  | none => simpa using List.find?_eq_none.1 hg f hf
  | some g =>
    -- What is found has that number, and no two firings share one.
    rw [List.inj_on_of_nodup_map h.lone (List.mem_of_find?_eq_some hg) hf (number_of_firing? hg)]

section Found

variable {f : Firing} (hf : e.firing? f.number = some f)

include hf

/-- A firing that is not in a queue is none of those that wait for a lock. -/
theorem AtLock.ne {lock a : Nat} (h : e.AtLock lock a) (hstage : f.stage ≠ .atLock) :
    a ≠ f.number := by
  rintro rfl
  obtain ⟨g, hg, _, _, hg'⟩ := h
  obtain rfl := Option.some.inj (hf.symm.trans hg)
  exact hstage hg'

/-- Nor is it one of those that wait in the pool. -/
theorem AtPool.ne {a : Nat} (h : e.AtPool a) (hstage : f.stage ≠ .atPool) : a ≠ f.number := by
  rintro rfl
  obtain ⟨g, hg, hg'⟩ := h
  obtain rfl := Option.some.inj (hf.symm.trans hg)
  exact hstage hg'

/-- Whoever has taken a lock had it before, or has just gone on with it. -/
theorem holds_setFiring {lock a : Nat} {stage : Firing.Stage}
    (h : (e.setFiring f.number stage).Holds lock a) :
    e.Holds lock a ∨
      (a = f.number ∧ stage.isPastLock = true ∧ f.job.exclusive = true ∧ f.lock = lock) := by
  obtain ⟨g, hg, hexclusive, hlock, hstage⟩ := h
  rcases firing?_setFiring_cases hf hg with ⟨heq, rfl⟩ | ⟨-, hg⟩
  · exact .inr ⟨heq, hstage, hexclusive, hlock⟩
  · exact .inl ⟨g, hg, hexclusive, hlock, hstage⟩

end Found

/-- Whoever else waits for a lock goes on waiting. -/
theorem atLock_setFiring {lock number a : Nat} {stage : Firing.Stage} (h : e.AtLock lock a)
    (hne : a ≠ number) : (e.setFiring number stage).AtLock lock a := by
  rw [AtLock, firing?_setFiring, if_neg hne]
  exact h

/-- Whoever else waits in the pool goes on waiting. -/
theorem atPool_setFiring {number a : Nat} {stage : Firing.Stage} (h : e.AtPool a)
    (hne : a ≠ number) : (e.setFiring number stage).AtPool a := by
  rw [AtPool, firing?_setFiring, if_neg hne]
  exact h

section Serves

variable {t : Turnstile Nat} {lock : Nat} (h : t.Serves (e.Holds lock) (e.AtLock lock))
  {f : Firing} (hf : e.firing? f.number = some f) {stage : Firing.Stage}

include h hf

/-- A lock does not care about a firing that is not queued for it and that takes no lock. -/
theorem serves_setFiring (hlock : f.stage ≠ .atLock)
    (hpast : f.job.exclusive = true → stage.isPastLock = true → f.stage.isPastLock = true) :
    t.Serves ((e.setFiring f.number stage).Holds lock)
      ((e.setFiring f.number stage).AtLock lock) := by
  refine h.mono ?_ fun a _ ha => atLock_setFiring ha (ha.ne hf hlock)
  intro a ha
  -- It had the lock before, or it is the firing that goes on, and then it is past the lock already.
  rcases holds_setFiring hf ha with ha | ⟨rfl, hstage, hexclusive, heq⟩
  · exact ha
  · exact ⟨f, hf, hexclusive, heq, hpast hexclusive hstage⟩

/-- A lock does not care about the firings of another one. -/
theorem serves_setFiring_of_ne (hne : f.lock ≠ lock) :
    t.Serves ((e.setFiring f.number stage).Holds lock)
      ((e.setFiring f.number stage).AtLock lock) := by
  refine h.mono ?_ fun a _ ha => atLock_setFiring ha ?_
  · intro a ha
    rcases holds_setFiring hf ha with ha | ⟨_, _, _, heq⟩
    · exact ha
    · exact absurd heq hne
  -- Were it the firing that goes on, it would wait for another lock than its own.
  · rintro rfl
    obtain ⟨g, hg, _, heq, _⟩ := ha
    obtain rfl := Option.some.inj (hf.symm.trans hg)
    exact hne heq

end Serves

/-- A lock has the queue that it is given. -/
@[simp] theorem turns_setTurns_self (e : Engine) (lock : Nat) (t : Turnstile Nat) :
    (e.setTurns lock t).turns lock = t :=
  if_pos rfl

/-- The other locks keep theirs. -/
theorem turns_setTurns_of_ne (e : Engine) {lock other : Nat} (h : other ≠ lock)
    (t : Turnstile Nat) : (e.setTurns lock t).turns other = e.turns other :=
  if_neg h

namespace TakesTurns

/-- Without firings nobody has anything or waits. -/
theorem ofWorkers (workers : Nat) : (ofWorkers workers).TakesTurns where
  turns _ := Turnstile.serves_ofPlaces fun _ ⟨_, hf, _⟩ => by cases hf
  pool := List.nodup_nil
  queued _ ha := by cases ha

/-- Nothing but firings and turnstiles matters. -/
theorem of_firings (h : e.TakesTurns) {e' : Engine} (hfirings : e'.firings = e.firings)
    (hturns : e'.turns = e.turns) (hpool : e'.pool = e.pool) : e'.TakesTurns := by
  have hfind (a : Nat) : e'.firing? a = e.firing? a := by rw [firing?, firing?, hfirings]
  refine ⟨fun lock => ?_, ?_, fun a ha => ?_⟩
  · rw [hturns]
    refine (h.turns lock).mono (fun a ha => ?_) fun a _ ha => ?_
    · rw [Holds, hfind] at ha
      exact ha
    · rw [AtLock, hfind]
      exact ha
  · rw [hpool]
    exact h.pool
  · rw [hpool] at ha
    rw [AtPool, hfind]
    exact h.queued a ha

/-- Moves that spare the firings spare the turnstiles. -/
theorem of_spared (h : e.TakesTurns) {e' : Engine} (hspared : e.SparesFirings e') :
    e'.TakesTurns :=
  h.of_firings hspared.firings hspared.turns hspared.pool

/-- A firing that waits nowhere may go on to a stage, if that takes it past its lock only
    if it was so before. -/
theorem setFiring (h : e.TakesTurns) {f : Firing} (hf : e.firing? f.number = some f)
    (hlock : f.stage ≠ .atLock) (hpool : f.stage ≠ .atPool) {stage : Firing.Stage}
    (hpast : f.job.exclusive = true → stage.isPastLock = true → f.stage.isPastLock = true) :
    (e.setFiring f.number stage).TakesTurns where
  turns lock := serves_setFiring (h.turns lock) hf hlock hpast
  pool := h.pool
  queued a ha := atPool_setFiring (h.queued a ha) ((h.queued a ha).ne hf hpool)

/-- A firing that was just set off takes its lock, or queues for it. -/
theorem takeLock (h : e.TakesTurns) {f : Firing} (hf : e.firing? f.number = some f)
    (hstage : f.stage = .fresh) : (e.takeLock f).TakesTurns := by
  -- A firing that was just set off is in no queue.
  have hlock : f.stage ≠ .atLock := by simp [hstage]
  have hpool : f.stage ≠ .atPool := by simp [hstage]
  rw [Engine.takeLock]
  split
  · next hexclusive =>
    refine ⟨fun lock => ?_, h.pool, fun a ha =>
      atPool_setFiring (h.queued a ha) ((h.queued a ha).ne hf hpool)⟩
    -- Its own lock lets it in or queues it, and no other lock knows of it.
    by_cases heq : lock = f.lock
    · subst heq
      show (((e.setTurns f.lock _).turns f.lock)).Serves _ _
      rw [turns_setTurns_self]
      refine (h.turns f.lock).enter (fun ha => ha.ne hf hlock rfl) ?_ ?_ ?_
      · intro a ha
        rcases holds_setFiring hf ha with ha | ⟨rfl, hpast, _⟩
        · exact .inr ha
        · -- It went past the lock at once, so the lock was free.
          refine .inl ⟨rfl, ?_⟩
          cases hopen : (e.turns f.lock).isOpen with
          | true => rfl
          | false => simp [hopen, Firing.Stage.isPastLock] at hpast
      · exact fun a ha => atLock_setFiring ha (ha.ne hf hlock)
      · intro hopen
        refine ⟨{ f with stage := .atLock }, ?_, hexclusive, rfl, rfl⟩
        dsimp only
        rw [hopen]
        exact firing?_setFiring_self hf .atLock
    -- Another lock: this firing is none of its own.
    · show ((e.setTurns f.lock _).turns lock).Serves _ _
      rw [turns_setTurns_of_ne e heq]
      exact serves_setFiring_of_ne (h.turns lock) hf (Ne.symm heq)
  -- A firing of a job that is not exclusive passes by the lock.
  · next hshared =>
    exact h.setFiring hf hlock hpool fun hexclusive => absurd hexclusive hshared

/-- A firing that has taken its lock takes a place in the pool, or queues for one. -/
theorem takePlace (h : e.TakesTurns) {f : Firing} (hf : e.firing? f.number = some f)
    (hstage : f.stage = .locked) : (e.takePlace f).TakesTurns := by
  have hpool : f.stage ≠ .atPool := by simp [hstage]
  -- To have a place or to wait for one is to be past the lock, as before.
  have hset (stage : Firing.Stage) : (e.setFiring f.number stage).TakesTurns :=
    h.setFiring hf (by simp [hstage]) hpool fun _ _ => by simp [hstage, Firing.Stage.isPastLock]
  rw [Engine.takePlace]
  cases hopen : e.pool.isOpen with
  -- A place is free.
  | true =>
    rw [Turnstile.enter_of_isOpen hopen]
    exact ⟨(hset .placed).turns, h.pool, (hset .placed).queued⟩
  -- All places are taken, so the firing goes to the end of the queue.
  | false =>
    rw [Turnstile.enter_of_not_isOpen hopen]
    refine ⟨(hset .atPool).turns, ?_, ?_⟩
    · show (e.pool.waiting ++ [f.number]).Nodup
      rw [← List.concat_eq_append]
      exact h.pool.concat fun ha => (h.queued f.number ha).ne hf hpool rfl
    · intro a ha
      rcases List.mem_append.1 ha with ha | ha
      · exact (hset .atPool).queued a ha
      · rw [List.mem_singleton.1 ha]
        refine ⟨{ f with stage := .atPool }, ?_, rfl⟩
        exact firing?_setFiring_self hf _

/-- A firing with a place calls the handler and keeps what it has. -/
theorem callHandler (h : e.TakesTurns) {f : Firing} (hf : e.firing? f.number = some f)
    (hstage : f.stage = .placed) : (e.callHandler f).TakesTurns := by
  have hset : (e.setFiring f.number .inside).TakesTurns :=
    h.setFiring hf (by simp [hstage]) (by simp [hstage]) fun _ _ => by
      simp [hstage, Firing.Stage.isPastLock]
  exact hset.of_firings rfl rfl rfl

/-- Whatever the stage of a firing, its step keeps the turns. -/
theorem advance (h : e.TakesTurns) {f : Firing} (hf : e.firing? f.number = some f) :
    (e.advance f).TakesTurns := by
  rw [Engine.advance]
  split
  -- Each stage at which it can go on has its step, and at the others nothing happens.
  · next hstage => exact h.takeLock hf hstage
  · next hstage => exact h.takePlace hf hstage
  · next hstage => exact h.callHandler hf hstage
  all_goals exact h

/-- A firing that waits nowhere may go. -/
theorem dismiss (h : e.TakesTurns) {f : Firing} (hf : e.firing? f.number = some f)
    (hlock : f.stage ≠ .atLock) (hpool : f.stage ≠ .atPool) : (e.dismiss f.number).TakesTurns where
  turns lock := by
    refine (h.turns lock).mono (fun a ha => ?_) fun a _ ha => ?_
    -- Whoever has the lock afterwards had it before.
    · obtain ⟨g, hg, hrest⟩ := ha
      rw [firing?_dismiss] at hg
      split at hg
      · cases hg
      · exact ⟨g, hg, hrest⟩
    -- Whoever waits is another firing, which stays.
    · rw [AtLock, firing?_dismiss, if_neg (ha.ne hf hlock)]
      exact ha
  pool := h.pool
  queued a ha := by
    rw [AtPool, firing?_dismiss, if_neg ((h.queued a ha).ne hf hpool)]
    exact h.queued a ha

/-- A place in the pool goes to a firing that is past its lock. -/
theorem freePlace (h : e.TakesTurns) : e.freePlace.1.TakesTurns := by
  rw [freePlace_eq, Turnstile.leave]
  cases hw : e.pool.waiting with
  -- Nobody waits in the pool.
  | nil => exact ⟨h.turns, List.nodup_nil, fun a ha => by cases ha⟩
  | cons next rest =>
    have hnodup := h.pool
    rw [hw] at hnodup
    obtain ⟨hnext, hrest⟩ := List.nodup_cons.1 hnodup
    -- The next one was waiting in the pool, so it has its lock.
    obtain ⟨f, hf, hstage⟩ := h.queued next (by rw [hw]; exact List.mem_cons_self)
    obtain rfl := number_of_firing? hf
    refine ⟨fun lock => serves_setFiring (h.turns lock) hf (by simp [hstage]) fun _ _ => by
      simp [hstage, Firing.Stage.isPastLock], hrest, fun a ha => ?_⟩
    refine atPool_setFiring (h.queued a (by rw [hw]; exact List.mem_cons_of_mem _ ha)) ?_
    rintro rfl
    exact hnext ha

/-- A lock that nobody holds any more goes to the firing that has waited longest. -/
theorem freeLock (h : e.TakesTurns) {lock : Nat} (hfree : (e.turns lock).free = 0)
    (hgone : ∀ a, ¬ e.Holds lock a) : (e.freeLock lock).1.TakesTurns := by
  have hserves := h.turns lock
  rw [freeLock_eq]
  cases hnext : (e.turns lock).leave.2 with
  -- Nobody waits for the lock, so it is free.
  | none =>
    refine ⟨fun other => ?_, h.pool, h.queued⟩
    by_cases heq : other = lock
    · subst heq
      rw [turns_setTurns_self]
      exact hserves.leave hfree (fun a ha => absurd ha (hgone a)) fun a ha _ => ha
    · rw [turns_setTurns_of_ne e heq]
      exact h.turns other
  | some next =>
    -- The next one was waiting for this lock, so its going on concerns no other.
    obtain ⟨f, hf, hexclusive, hlock, hstage⟩ := hserves.queue next (Turnstile.mem_of_leave hnext)
    obtain rfl := number_of_firing? hf
    refine ⟨fun other => ?_, h.pool, fun a ha =>
      atPool_setFiring (h.queued a ha) ((h.queued a ha).ne hf (by simp [hstage]))⟩
    by_cases heq : other = lock
    · subst heq
      show ((e.setTurns other _).turns other).Serves _ _
      rw [turns_setTurns_self]
      refine hserves.leave hfree ?_ ?_
      -- Nobody had it, so the next one is the only one that has it.
      · intro a ha
        rcases holds_setFiring hf ha with ha | ⟨rfl, _⟩
        · exact absurd ha (hgone a)
        · exact hnext
      -- Whoever still waits is not the one that was let in.
      · intro a ha hne
        refine atLock_setFiring ha ?_
        rintro rfl
        exact hne hnext
    · show ((e.setTurns lock _).turns other).Serves _ _
      rw [turns_setTurns_of_ne e heq]
      exact serves_setFiring_of_ne (h.turns other) hf fun habs => heq (habs.symm.trans hlock)

/-- No lock is taken when a place in the pool becomes free. -/
theorem holds_freePlace (h : e.TakesTurns) {lock a : Nat} (ha : e.freePlace.1.Holds lock a) :
    e.Holds lock a := by
  rw [freePlace_eq] at ha
  cases hnext : e.pool.leave.2 with
  -- The pool has no next one, so no firing changes.
  | none =>
    rw [hnext] at ha
    exact ha
  | some next =>
    rw [hnext] at ha
    obtain ⟨f, hf, hstage⟩ := h.queued next (Turnstile.mem_of_leave hnext)
    obtain rfl := number_of_firing? hf
    -- The next one had its lock already.
    rcases holds_setFiring hf ha with ha | ⟨rfl, _, hexclusive, hlock⟩
    · exact ha
    · exact ⟨f, hf, hexclusive, hlock, by simp [hstage, Firing.Stage.isPastLock]⟩

/-- A firing that is over hands on its place and then its lock. -/
theorem finish (h : e.TakesTurns) {f : Firing} (hf : e.firing? f.number = some f)
    (hstage : f.stage = .inside) (broken : Bool) : (e.finish f broken).1.TakesTurns := by
  -- The record and then the going of the firing keep the turns.
  have hnoted := h.of_spared (spares_noteFinish e f broken)
  have hf' : (e.noteFinish f broken).firing? f.number = some f := by
    rw [firing?, (spares_noteFinish e f broken).firings]
    exact hf
  let gone := (e.noteFinish f broken).dismiss f.number
  have hgone : gone.TakesTurns := hnoted.dismiss hf' (by simp [hstage]) (by simp [hstage])
  -- What is left is to free the place and, for an exclusive job, the lock.
  rw [finish_eq]
  refine TakesTurns.of_firings (e := if f.job.exclusive then _ else _) ?_ rfl rfl rfl
  split
  · next hexclusive =>
    -- The firing was the one that held the lock, and now nobody does.
    have hheld : (e.noteFinish f broken).Holds f.lock f.number :=
      ⟨f, hf', hexclusive, rfl, by simp [hstage, Firing.Stage.isPastLock]⟩
    have hserves := hnoted.turns f.lock
    refine hgone.freePlace.freeLock ?_ ?_
    · rw [turns_freePlace]
      by_contra hfree
      exact hserves.vacant hfree f.number hheld
    · intro a ha
      obtain ⟨g, hg, hrest⟩ := hgone.holds_freePlace ha
      rw [firing?_dismiss] at hg
      split at hg
      · cases hg
      · next hne => exact hne (hserves.alone a f.number ⟨g, hg, hrest⟩ hheld)
  · exact hgone.freePlace

/-- A firing that was just set off has neither taken anything nor queued. -/
theorem setOff (h : e.TakesTurns) (now : Instant) (l : Loop) : (e.setOff now l).TakesTurns := by
  have hold {a : Nat} {f : Firing} (hf : e.firing? a = some f) :
      (e.setOff now l).firing? a = some f := by
    rw [firing?_setOff, hf, Option.some_or]
  -- The new firing is at neither stage, and the others are found as before.
  refine ⟨fun lock => (h.turns lock).mono (fun a ha => ?_) fun a _ ha => ?_, h.pool, fun a ha => ?_⟩
  -- Whoever has taken a lock is an old firing, as the new one is past nothing.
  · obtain ⟨f, hf, hrest⟩ := ha
    rw [firing?_setOff, Option.or_eq_some_iff] at hf
    rcases hf with hf | ⟨_, hf⟩
    · exact ⟨f, hf, hrest⟩
    · split at hf
      · cases hf
        cases hrest.2.2
      · cases hf
  -- Whoever waits for a lock or in the pool is found as before.
  · obtain ⟨f, hf, hrest⟩ := ha
    exact ⟨f, hold hf, hrest⟩
  · obtain ⟨f, hf, hrest⟩ := h.queued a ha
    exact ⟨f, hold hf, hrest⟩

end TakesTurns

end Engine

end FlowCadence
