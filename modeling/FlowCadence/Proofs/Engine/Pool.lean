import FlowCadence.Proofs.Engine.Exclusion
/-! # The pool never blocks

Every firing passes its lock first and the pool second, and it has no place in the pool while
it waits for its lock.  So whoever waits in the pool waits for firings that are past it, and
whoever waits for a lock waits for a firing that is past the lock: somebody can always go on.

What carries this is that all places of a turnstile are accounted for.  A place is free, or it
is taken by a firing at a stage where it has one; and while somebody waits no place is free.

## Key results

* `Turnstile.Accounts.enter`, `Turnstile.Accounts.leave`: a turnstile with any number of places
* `Occupied.step`, `Occupied.run`: locks and pool account for their places after every move
* `Occupied.lively`: as long as there are firings, one is inside the handler or can go on
* `pool_bounded_and_live`: the bound, who has a place, and that nothing blocks -/

namespace FlowCadence

/-! ### Places of a turnstile -/

namespace Turnstile

variable {α : Type} {t : Turnstile α} {places inside : Nat} {waits waits' : α → Prop}

/-- A place is free or somebody has it, whoever waits is queued, and nobody waits for a place
    that is free. -/
structure Accounts (t : Turnstile α) (places inside : Nat) (waits : α → Prop) : Prop where
  total : t.free + inside = places
  queued : ∀ a, waits a → a ∈ t.waiting
  fair : t.Fair

namespace Accounts

/-- All places of a new turnstile are free, and nobody waits. -/
theorem ofPlaces (n : Nat) (h : ∀ a, ¬ waits a) :
    (ofPlaces n : Turnstile α).Accounts n 0 waits where
  total := rfl
  queued a ha := absurd ha (h a)
  fair := fair_ofPlaces n

/-- Whoever waits may stop waiting. -/
theorem mono (h : t.Accounts places inside waits) (hwaits : ∀ a, waits' a → waits a) :
    t.Accounts places inside waits' where
  total := h.total
  queued a ha := h.queued a (hwaits a ha)
  fair := h.fair

/-- Whoever arrives has a place if the turnstile was open, and is queued otherwise. -/
theorem enter (h : t.Accounts places inside waits) {a : α}
    (hwaits : ∀ b, waits' b → waits b ∨ b = a ∧ t.isOpen = false) :
    (t.enter a).Accounts places (inside + t.isOpen.toNat) waits' := by
  refine ⟨?_, fun b hb => ?_, h.fair.enter a⟩
  · have htotal := h.total
    cases hopen : t.isOpen with
    -- The new user takes one of the free places.
    | true =>
      rw [enter_of_isOpen hopen]
      have hfree : t.free ≠ 0 := (isOpen_iff.1 hopen).1
      simp only [Bool.toNat_true]
      omega
    -- Nothing is free, and the new user has no place.
    | false =>
      rw [enter_of_not_isOpen hopen]
      exact htotal
  -- Whoever waited before is still queued, and the new one is at the end.
  · rcases hwaits b hb with hold | ⟨rfl, hopen⟩
    · rw [Turnstile.enter]
      split
      · exact h.queued b hold
      · exact List.mem_append_left _ (h.queued b hold)
    · rw [enter_of_not_isOpen hopen]
      simp

/-- A place that is given up goes to the first in the queue, or it is free. -/
theorem leave (h : t.Accounts places (inside + 1) waits)
    (hwaits : ∀ b, waits' b → waits b ∧ t.leave.2 ≠ some b) :
    t.leave.1.Accounts places (inside + t.leave.2.isSome.toNat) waits' := by
  have htotal := h.total
  refine ⟨?_, fun b hb => ?_, h.fair.leave⟩
  · unfold Turnstile.leave
    -- The queue is empty or not.
    cases t.waiting with
    -- Nobody waits, so the place is free again.
    | nil =>
      simp only [Option.isSome_none, Bool.toNat_false]
      omega
    -- The next one has the place, so the numbers are as before.
    | cons next rest => exact htotal
  · obtain ⟨hold, hne⟩ := hwaits b hb
    have hmem := h.queued b hold
    unfold Turnstile.leave at hne ⊢
    cases hw : t.waiting with
    | nil =>
      rw [hw] at hmem
      cases hmem
    | cons next rest =>
      simp only [hw] at hmem hne ⊢
      -- The first in the queue does not wait any more, and the others are still there.
      rcases List.mem_cons.1 hmem with rfl | hmem
      · exact absurd rfl hne
      · exact hmem

/-- While somebody waits, every place is taken. -/
theorem inside_eq (h : t.Accounts places inside waits) {a : α} (ha : waits a) :
    inside = places := by
  have htotal := h.total
  rcases h.fair with hfree | hempty
  -- A free place would be against what is accounted for, as one waits.
  · omega
  · have hmem := h.queued a ha
    rw [hempty] at hmem
    cases hmem

/-- While nobody is inside, whoever arrives comes in. -/
theorem isOpen_of_vacant (h : t.Accounts places 0 waits) (hplaces : places ≠ 0) :
    t.isOpen = true := by
  have htotal := h.total
  -- All places are free.
  have hfree : t.free ≠ 0 := by omega
  exact isOpen_iff.2 ⟨hfree, h.fair.resolve_left hfree⟩

end Accounts

end Turnstile

namespace Engine

variable {e : Engine} {f : Firing} {stage : Firing.Stage} {a workers lock : Nat}

/-! ### Who is where -/

/-- Whether a firing at a stage has a place in the pool. -/
def Firing.Stage.hasPlace : Firing.Stage → Bool
  | .placed | .inside => true
  | .fresh | .atLock | .locked | .atPool => false

/-- What a turnstile is to firings: which of them it has let in, and which of them it keeps
    waiting. -/
structure Passage where
  has : Firing → Bool
  awaits : Firing → Bool

/-- The lock with a number. -/
def Passage.ofLock (lock : Nat) : Passage where
  has f := f.job.exclusive && decide (f.lock = lock) && f.stage.isPastLock
  awaits f := decide (f.lock = lock) && decide (f.stage = .atLock)

/-- The pool. -/
def Passage.ofPool : Passage where
  has f := f.stage.hasPlace
  awaits f := decide (f.stage = .atPool)

/-- How many firings a turnstile has let in. -/
def occupancy (e : Engine) (p : Passage) : Nat := e.firings.countP p.has

/-- A firing is kept waiting. -/
def Awaits (e : Engine) (p : Passage) (number : Nat) : Prop :=
  ∃ f, e.firing? number = some f ∧ p.awaits f = true

variable {p : Passage}

/-- A firing stands among others that have other numbers. -/
theorem Numbered.exists_around (h : e.Numbered) (hf : e.firing? f.number = some f) :
    ∃ before after, e.firings = before ++ f :: after ∧
      (∀ g ∈ before, g.number ≠ f.number) ∧ ∀ g ∈ after, g.number ≠ f.number := by
  obtain ⟨before, after, heq⟩ := List.append_of_mem (List.mem_of_find?_eq_some hf)
  have hlone := h.lone
  -- The numbers before it and behind it are other ones, as no two are the same.
  rw [heq, List.map_append, List.map_cons, List.nodup_append, List.nodup_cons] at hlone
  obtain ⟨-, ⟨hafter, -⟩, hbefore⟩ := hlone
  refine ⟨before, after, heq, fun g hg => ?_, fun g hg hnumber => ?_⟩
  · exact hbefore _ (List.mem_map_of_mem hg) _ List.mem_cons_self
  · exact hafter (hnumber ▸ List.mem_map_of_mem hg)

/-- When a firing goes to another stage, the count changes by that firing alone. -/
theorem occupancy_setFiring (p : Passage) (stage : Firing.Stage) (h : e.Numbered)
    (hf : e.firing? f.number = some f) :
    (e.setFiring f.number stage).occupancy p + (p.has f).toNat =
      e.occupancy p + (p.has { f with stage }).toNat := by
  obtain ⟨before, after, heq, hbefore, hafter⟩ := h.exists_around hf
  -- Neither part is changed by what happens to that number.
  have hrest (l : List Firing) (hl : ∀ g ∈ l, g.number ≠ f.number) :
      (l.map fun g => if g.number = f.number then { g with stage } else g) = l := by
    rw [List.map_congr_left fun g hg => if_neg (hl g hg), List.map_id']
  unfold occupancy setFiring
  rw [heq]
  simp only [List.map_append, List.map_cons, if_true, hrest before hbefore, hrest after hafter,
    List.countP_append, List.countP_cons]
  cases p.has f <;> cases p.has { f with stage } <;> simp <;> omega

/-- When a firing goes, the count changes by that firing alone. -/
theorem occupancy_dismiss (h : e.Numbered) (hf : e.firing? f.number = some f) :
    (e.dismiss f.number).occupancy p + (p.has f).toNat = e.occupancy p := by
  obtain ⟨before, after, heq, hbefore, hafter⟩ := h.exists_around hf
  -- Neither part loses anything.
  have hrest (l : List Firing) (hl : ∀ g ∈ l, g.number ≠ f.number) :
      l.filter (fun g => g.number != f.number) = l :=
    List.filter_eq_self.2 fun g hg => by simpa using hl g hg
  unfold occupancy dismiss
  rw [heq]
  simp only [List.filter_append, List.filter_cons, bne_self_eq_false, Bool.false_eq_true, if_false,
    hrest before hbefore, hrest after hafter, List.countP_append, List.countP_cons]
  cases p.has f with
  | true =>
    simp only [if_true, Bool.toNat_true]
    omega
  | false => simp

/-- Whoever waits was waiting already, or is the one that has just gone on. -/
theorem awaits_setFiring (hf : e.firing? f.number = some f)
    (h : (e.setFiring f.number stage).Awaits p a) :
    e.Awaits p a ∧ a ≠ f.number ∨ a = f.number ∧ p.awaits { f with stage } = true := by
  obtain ⟨g, hg, hawaits⟩ := h
  rcases firing?_setFiring_cases hf hg with ⟨heq, rfl⟩ | ⟨hne, hg⟩
  · exact .inr ⟨heq, hawaits⟩
  · exact .inl ⟨⟨g, hg, hawaits⟩, hne⟩

/-- Whoever waits once a firing is gone waited before. -/
theorem awaits_dismiss {number : Nat} (h : (e.dismiss number).Awaits p a) : e.Awaits p a := by
  obtain ⟨g, hg, hawaits⟩ := h
  rw [firing?_dismiss] at hg
  split at hg
  · cases hg
  · exact ⟨g, hg, hawaits⟩

/-! ### Places taken and places owed -/

/-- A turnstile accounts for its places: each is free, or a firing has it, or it is owed,
    as the firing that had it is gone and has not given it back yet. -/
def Accounted (e : Engine) (t : Turnstile Nat) (places owed : Nat) (p : Passage) : Prop :=
  t.Accounts places (e.occupancy p + owed) (e.Awaits p)

namespace Accounted

variable {t : Turnstile Nat} {places owed : Nat}

/-- Nothing but firings matters. -/
theorem of_firings (h : e.Accounted t places owed p) {e' : Engine}
    (hfirings : e'.firings = e.firings) : e'.Accounted t places owed p := by
  unfold Accounted occupancy Awaits firing? at h ⊢
  rw [hfirings]
  exact h

/-- What a firing had is owed once it is gone. -/
theorem dismiss (h : e.Accounted t places owed p) (hn : e.Numbered)
    (hf : e.firing? f.number = some f) :
    (e.dismiss f.number).Accounted t places ((p.has f).toNat + owed) p := by
  unfold Accounted at h ⊢
  rw [← occupancy_dismiss hn hf, Nat.add_assoc] at h
  exact h.mono fun a ha => awaits_dismiss ha

section Going

variable (hn : e.Numbered) (hf : e.firing? f.number = some f)

include hn hf

/-- A turnstile does not care about a firing that goes on elsewhere. -/
theorem setFiring (h : e.Accounted t places owed p) (hhas : p.has { f with stage } = p.has f)
    (hawaits : p.awaits { f with stage } = false) :
    (e.setFiring f.number stage).Accounted t places owed p := by
  have hcount := occupancy_setFiring p stage hn hf
  rw [hhas] at hcount
  unfold Accounted at h ⊢
  rw [Nat.add_right_cancel hcount]
  refine h.mono fun a ha => ?_
  -- Whoever waits is another firing, as the one that goes on does not wait there.
  rcases awaits_setFiring hf ha with ⟨hold, -⟩ | ⟨-, hstage⟩
  · exact hold
  · rw [hawaits] at hstage
    cases hstage

/-- A firing that arrives at a turnstile is let in, or waits. -/
theorem enter (h : e.Accounted t places owed p) (hout : p.has f = false)
    (hhas : p.has { f with stage } = t.isOpen)
    (hawaits : p.awaits { f with stage } = true → t.isOpen = false) :
    (e.setFiring f.number stage).Accounted (t.enter f.number) places owed p := by
  have hcount := occupancy_setFiring p stage hn hf
  rw [hout, hhas, Bool.toNat_false, Nat.add_zero] at hcount
  unfold Accounted at h ⊢
  rw [hcount, Nat.add_right_comm]
  refine h.enter fun a ha => ?_
  -- It is another firing, or it is the one that arrives and finds the turnstile closed.
  rcases awaits_setFiring hf ha with ⟨hold, -⟩ | ⟨heq, hstage⟩
  · exact .inl hold
  · exact .inr ⟨heq, hawaits hstage⟩

/-- A place that is owed goes to the firing that has waited longest. -/
theorem hand (h : e.Accounted t places (owed + 1) p) (hnext : t.leave.2 = some f.number)
    (hout : p.has f = false) (hhas : p.has { f with stage } = true)
    (hawaits : p.awaits { f with stage } = false) :
    (e.setFiring f.number stage).Accounted t.leave.1 places owed p := by
  have hcount := occupancy_setFiring p stage hn hf
  rw [hout, hhas, Bool.toNat_false, Nat.add_zero] at hcount
  unfold Accounted at h ⊢
  -- The next one does not wait any more, and whoever still does is another firing.
  have hwaits (a : Nat) (ha : (e.setFiring f.number stage).Awaits p a) :
      e.Awaits p a ∧ t.leave.2 ≠ some a := by
    rcases awaits_setFiring hf ha with ⟨hold, hne⟩ | ⟨-, hstage⟩
    · exact ⟨hold, fun habs => hne (Option.some.inj (habs.symm.trans hnext))⟩
    · rw [hawaits] at hstage
      cases hstage
  have hleave := Turnstile.Accounts.leave h hwaits
  rw [hnext] at hleave
  rw [hcount, Nat.add_right_comm]
  exact hleave

end Going

/-- A place that is owed is free when nobody waits for it. -/
theorem free (h : e.Accounted t places (owed + 1) p) (hnext : t.leave.2 = none) :
    e.Accounted t.leave.1 places owed p := by
  have hleave := Turnstile.Accounts.leave h fun a ha => ⟨ha, by simp [hnext]⟩
  rw [hnext] at hleave
  exact hleave

end Accounted

/-- Locks and pool account for their places.  Nothing is owed but while a firing that is over
    gives back what it had. -/
structure Occupied (workers : Nat) (owedLocks : Nat → Nat) (owedPlaces : Nat) (e : Engine) :
    Prop where
  locks : ∀ lock, e.Accounted (e.turns lock) 1 (owedLocks lock) (.ofLock lock)
  pool : e.Accounted e.pool (poolSize workers) owedPlaces .ofPool

namespace Occupied

variable {owedLocks owedLocks' : Nat → Nat} {owedPlaces : Nat}

/-- Without firings every lock and every place is free. -/
theorem ofWorkers (workers : Nat) : Occupied workers (fun _ => 0) 0 (ofWorkers workers) where
  locks _ := .ofPlaces 1 fun _ ⟨_, hf, _⟩ => by cases hf
  pool := .ofPlaces _ fun _ ⟨_, hf, _⟩ => by cases hf

/-- Moves that spare the firings spare what they have. -/
theorem of_spared (h : Occupied workers owedLocks owedPlaces e) {e' : Engine}
    (hspared : e.SparesFirings e') : Occupied workers owedLocks owedPlaces e' where
  locks lock := by
    rw [hspared.turns]
    exact (h.locks lock).of_firings hspared.firings
  pool := by
    rw [hspared.pool]
    exact h.pool.of_firings hspared.firings

/-- A firing that was just set off has neither taken anything nor queued. -/
theorem setOff (h : Occupied workers owedLocks owedPlaces e) (now : Instant) (l : Loop) :
    Occupied workers owedLocks owedPlaces (e.setOff now l) := by
  -- For any turnstile the new firing neither has a place nor waits.
  have hnew {t : Turnstile Nat} {places owed : Nat} {p : Passage}
      (ht : e.Accounted t places owed p) (hhas : p.has ⟨e.unused, l.job, l.lock, .fresh⟩ = false)
      (hawaits : p.awaits ⟨e.unused, l.job, l.lock, .fresh⟩ = false) :
      (e.setOff now l).Accounted t places owed p := by
    have hcount : (e.setOff now l).occupancy p = e.occupancy p := by
      show (e.firings ++ [_]).countP p.has = _
      rw [List.countP_append, List.countP_singleton, hhas]
      rfl
    unfold Accounted at ht ⊢
    rw [hcount]
    refine ht.mono fun a ha => ?_
    -- Whoever waits is an old firing.
    obtain ⟨f, hf, hf'⟩ := ha
    rw [firing?_setOff, Option.or_eq_some_iff] at hf
    rcases hf with hf | ⟨-, hf⟩
    · exact ⟨f, hf, hf'⟩
    · split at hf
      · cases hf
        rw [hawaits] at hf'
        cases hf'
      · cases hf
  exact ⟨fun lock => hnew (h.locks lock) (by simp [Passage.ofLock, Firing.Stage.isPastLock])
    (by simp [Passage.ofLock]), hnew h.pool rfl rfl⟩

section Steps

variable (h : Occupied workers owedLocks owedPlaces e) (hn : e.Numbered)
  (hf : e.firing? f.number = some f)

include h hn hf

/-- A firing goes on where it needs neither a lock nor a place. -/
theorem setFiring (hlock : ∀ lock, (Passage.ofLock lock).has { f with stage } =
      (Passage.ofLock lock).has f)
    (hplace : stage.hasPlace = f.stage.hasPlace) (hatLock : stage ≠ .atLock)
    (hatPool : stage ≠ .atPool) :
    Occupied workers owedLocks owedPlaces (e.setFiring f.number stage) where
  locks lock := (h.locks lock).setFiring hn hf (hlock lock) (by simp [Passage.ofLock, hatLock])
  pool := h.pool.setFiring hn hf hplace (by simp [Passage.ofPool, hatPool])

/-- A firing that was just set off takes its lock, or queues for it. -/
theorem takeLock (hstage : f.stage = .fresh) :
    Occupied workers owedLocks owedPlaces (e.takeLock f) := by
  rw [Engine.takeLock]
  split
  · next hexclusive =>
    refine ⟨fun lock => ?_, ?_⟩
    -- Its own lock lets it in or queues it, and no other lock knows of it.
    · by_cases heq : lock = f.lock
      · subst heq
        show Accounted _ ((e.setTurns f.lock _).turns f.lock) _ _ _
        rw [turns_setTurns_self]
        refine ((h.locks f.lock).enter hn hf ?_ ?_ ?_).of_firings rfl
        · simp [Passage.ofLock, hstage, Firing.Stage.isPastLock]
        · cases (e.turns f.lock).isOpen <;>
            simp [Passage.ofLock, hexclusive, Firing.Stage.isPastLock]
        · cases (e.turns f.lock).isOpen <;> simp [Passage.ofLock]
      · show Accounted _ ((e.setTurns f.lock _).turns lock) _ _ _
        rw [turns_setTurns_of_ne e heq]
        refine ((h.locks lock).setFiring hn hf ?_ ?_).of_firings rfl <;>
          simp [Passage.ofLock, Ne.symm heq]
    -- The pool knows of it before and afterwards as of one that has no place.
    · refine (h.pool.setFiring hn hf ?_ ?_).of_firings rfl <;>
        cases (e.turns f.lock).isOpen <;> simp [Passage.ofPool, hstage, Firing.Stage.hasPlace]
  -- A firing of a job that is not exclusive passes by the lock.
  · next hshared =>
    exact h.setFiring hn hf (by simp [Passage.ofLock, hshared])
      (by simp [hstage, Firing.Stage.hasPlace]) (by simp) (by simp)

/-- A firing that has taken its lock takes a place in the pool, or queues for one. -/
theorem takePlace (hstage : f.stage = .locked) :
    Occupied workers owedLocks owedPlaces (e.takePlace f) := by
  rw [Engine.takePlace]
  refine ⟨fun lock => ?_, ?_⟩
  -- For every lock it stays past it.
  · refine ((h.locks lock).setFiring hn hf ?_ ?_).of_firings rfl <;>
      cases e.pool.isOpen <;> simp [Passage.ofLock, hstage, Firing.Stage.isPastLock]
  -- The pool lets it in or queues it.
  · refine (h.pool.enter hn hf ?_ ?_ ?_).of_firings rfl
    · simp [Passage.ofPool, hstage, Firing.Stage.hasPlace]
    · cases e.pool.isOpen <;> simp [Passage.ofPool, Firing.Stage.hasPlace]
    · cases e.pool.isOpen <;> simp [Passage.ofPool]

/-- A firing with a place calls the handler and keeps what it has. -/
theorem callHandler (hstage : f.stage = .placed) :
    Occupied workers owedLocks owedPlaces (e.callHandler f) := by
  have hset : Occupied workers owedLocks owedPlaces (e.setFiring f.number .inside) :=
    h.setFiring hn hf (by simp [Passage.ofLock, hstage, Firing.Stage.isPastLock])
      (by simp [hstage, Firing.Stage.hasPlace]) (by simp) (by simp)
  exact hset.of_spared ⟨rfl, rfl, rfl, Nat.le_refl _⟩

/-- Whatever the stage of a firing, its step keeps account of all places. -/
theorem advance : Occupied workers owedLocks owedPlaces (e.advance f) := by
  rw [Engine.advance]
  split
  · next hstage => exact h.takeLock hn hf hstage
  · next hstage => exact h.takePlace hn hf hstage
  · next hstage => exact h.callHandler hn hf hstage
  all_goals exact h

/-- A firing that is gone owes what it had. -/
theorem dismiss : Occupied workers
    (fun lock => ((Passage.ofLock lock).has f).toNat + owedLocks lock)
    (f.stage.hasPlace.toNat + owedPlaces) (e.dismiss f.number) where
  locks lock := (h.locks lock).dismiss hn hf
  pool := h.pool.dismiss hn hf

end Steps

/-- A place in the pool is given back. -/
theorem freePlace (h : Occupied workers owedLocks (owedPlaces + 1) e) (hn : e.Numbered)
    (ht : e.TakesTurns) : Occupied workers owedLocks owedPlaces e.freePlace.1 := by
  rw [freePlace_eq]
  cases hnext : e.pool.leave.2 with
  -- Nobody waits in the pool, so the place is free again.
  | none => exact ⟨fun lock => (h.locks lock).of_firings rfl, (h.pool.free hnext).of_firings rfl⟩
  | some next =>
    obtain ⟨f, hf, hstage⟩ := ht.queued next (Turnstile.mem_of_leave hnext)
    obtain rfl := number_of_firing? hf
    -- The next one was waiting in the pool, so it is past its lock and stays there.
    refine ⟨fun lock => ((h.locks lock).setFiring hn hf ?_ ?_).of_firings rfl,
      (h.pool.hand hn hf hnext ?_ ?_ ?_).of_firings rfl⟩ <;>
      simp [Passage.ofLock, Passage.ofPool, hstage, Firing.Stage.isPastLock, Firing.Stage.hasPlace]

/-- A lock is given back. -/
theorem freeLock (h : Occupied workers owedLocks owedPlaces e) (hn : e.Numbered)
    (ht : e.TakesTurns) (howed : owedLocks lock = owedLocks' lock + 1)
    (hrest : ∀ other, other ≠ lock → owedLocks other = owedLocks' other) :
    Occupied workers owedLocks' owedPlaces (e.freeLock lock).1 := by
  have hown := h.locks lock
  rw [howed] at hown
  rw [freeLock_eq]
  cases hnext : (e.turns lock).leave.2 with
  | none =>
    -- Nobody waits for the lock, so it is free again.
    refine ⟨fun other => ?_, h.pool.of_firings rfl⟩
    by_cases heq : other = lock
    · subst heq
      rw [turns_setTurns_self]
      exact (hown.free hnext).of_firings rfl
    · rw [turns_setTurns_of_ne e heq, ← hrest other heq]
      exact (h.locks other).of_firings rfl
  | some next =>
    obtain ⟨f, hf, hexclusive, hlock, hstage⟩ :=
      (ht.turns lock).queue next (Turnstile.mem_of_leave hnext)
    obtain rfl := number_of_firing? hf
    -- The next one was waiting for this lock, so it is none of the others' and has no place.
    refine ⟨fun other => ?_, (h.pool.setFiring hn hf ?_ rfl).of_firings rfl⟩
    · by_cases heq : other = lock
      · subst heq
        show Accounted _ ((e.setTurns other _).turns other) _ _ _
        rw [turns_setTurns_self]
        refine (hown.hand hn hf hnext ?_ ?_ ?_).of_firings rfl <;>
          simp [Passage.ofLock, hstage, hexclusive, hlock, Firing.Stage.isPastLock]
      · show Accounted _ ((e.setTurns lock _).turns other) _ _ _
        rw [turns_setTurns_of_ne e heq, ← hrest other heq]
        refine ((h.locks other).setFiring hn hf ?_ ?_).of_firings rfl <;>
          simp [Passage.ofLock, hlock, Ne.symm heq]
    · simp [Passage.ofPool, hstage, Firing.Stage.hasPlace]

/-- A firing that is over gives back its place and then its lock, and owes nothing. -/
theorem finish (h : Occupied workers (fun _ => 0) 0 e) (hn : e.Numbered) (ht : e.TakesTurns)
    (hf : e.firing? f.number = some f) (hstage : f.stage = .inside) (broken : Bool) :
    Occupied workers (fun _ => 0) 0 (e.finish f broken).1 := by
  have hspared := spares_noteFinish e f broken
  have hf' : (e.noteFinish f broken).firing? f.number = some f := by
    rw [firing?, hspared.firings]
    exact hf
  let gone := (e.noteFinish f broken).dismiss f.number
  -- First the firing goes, and what it had is owed.
  have hgone := (h.of_spared hspared).dismiss (hn.of_spared hspared) hf'
  have hgn : gone.Numbered := (hn.of_spared hspared).dismiss f.number
  have hgt : gone.TakesTurns :=
    (ht.of_spared hspared).dismiss hf' (by simp [hstage]) (by simp [hstage])
  rw [hstage] at hgone
  -- Then its place is given back.
  have hfreed := hgone.freePlace hgn hgt
  rw [finish_eq]
  refine Occupied.of_spared (e := if f.job.exclusive then _ else _) ?_
    ⟨rfl, rfl, rfl, Nat.le_refl _⟩
  -- Its place is given back, and of the locks it owes its own one if it is exclusive.
  split
  · next hexclusive =>
    refine hfreed.freeLock hgn.freePlace hgt.freePlace ?_ fun other hne => ?_
    · simp [Passage.ofLock, hexclusive, hstage, Firing.Stage.isPastLock]
    · simp [Passage.ofLock, Ne.symm hne]
  · next hshared =>
    have hnone : (fun lock => ((Passage.ofLock lock).has f).toNat + 0) = fun _ => 0 := by
      funext lock
      simp [Passage.ofLock, hshared]
    rw [hnone] at hfreed
    exact hfreed

/-- Every move keeps account, and only sound engines are moved. -/
theorem step (h : Occupied workers (fun _ => 0) 0 e) (hs : e.Sound) (move : Move) :
    Occupied workers (fun _ => 0) 0 (e.step move) := by
  rcases step_cases e move with hspared | ⟨now, l, -, heq⟩ | ⟨f, hf, heq⟩ |
    ⟨f, broken, hf, hstage, heq⟩
  -- Nothing happens to the firings.
  · exact h.of_spared hspared
  all_goals rw [heq]
  · exact h.setOff now l
  · exact h.advance hs.numbered hf
  · exact h.finish hs.numbered hs.takesTurns hf hstage broken

/-- Whatever has happened, locks and pool account for their places. -/
theorem run (workers : Nat) (moves : List Move) :
    Occupied workers (fun _ => 0) 0 ((Engine.ofWorkers workers).run moves) :=
  (run_keeps (P := fun e => e.Sound ∧ Occupied workers (fun _ => 0) 0 e)
    (fun _ move h => ⟨h.1.step move, h.2.step h.1 move⟩)
    ⟨.ofWorkers workers, .ofWorkers workers⟩ moves).2

end Occupied

/-! ### Somebody can go on -/

/-- Where a firing gets to next.  Once it is inside the handler, that is up to the handler. -/
def Firing.Stage.next : Firing.Stage → Option Firing.Stage
  | .fresh | .atLock => some .locked
  | .locked | .atPool => some .placed
  | .placed => some .inside
  | .inside => none

/-- A firing can go on at once: its own step takes it to where it gets next. -/
def Proceeds (e : Engine) (f : Firing) : Prop :=
  ∃ stage, f.stage.next = some stage ∧
    (e.step (.advance f.number)).firing? f.number = some { f with stage }

/-- A firing proceeds if its step does nothing to the firings but move it on. -/
theorem proceeds_of_advance (stage : Firing.Stage) (hf : e.firing? f.number = some f)
    (hnext : f.stage.next = some stage)
    (hadvance : (e.advance f).firings = (e.setFiring f.number stage).firings) : e.Proceeds f := by
  -- Its step is that of the stage at which it is.
  refine ⟨stage, hnext, ?_⟩
  simp only [step, hf]
  rw [firing?, hadvance]
  exact firing?_setFiring_self hf stage

/-- Some firing is inside the handler, or some firing can go on at once. -/
def Lively (e : Engine) : Prop :=
  (∃ f ∈ e.firings, f.stage = .inside) ∨ ∃ f ∈ e.firings, e.Proceeds f

/-- A firing that has a place in the pool can go on, or it is inside the handler. -/
theorem Numbered.lively_of_placed (hn : e.Numbered) (hf : f ∈ e.firings)
    (hplace : f.stage.hasPlace = true) : e.Lively := by
  cases hstage : f.stage with
  | inside => exact .inl ⟨f, hf, hstage⟩
  | placed =>
    refine .inr ⟨f, hf, proceeds_of_advance .inside (hn.firing?_eq hf) ?_ ?_⟩
    · rw [hstage]
      rfl
    · rw [Engine.advance, hstage]
      rfl
  | _ => simp [hstage, Firing.Stage.hasPlace] at hplace

namespace Occupied

variable (h : Occupied workers (fun _ => 0) 0 e) (hn : e.Numbered)

include h hn

/-- Whoever waits in the pool waits for a firing that has a place. -/
theorem lively_of_atPool (hf : f ∈ e.firings) (hstage : f.stage = .atPool) : e.Lively := by
  -- While somebody waits all places are taken, and there is at least one place.
  have hfull := h.pool.inside_eq ⟨f, hn.firing?_eq hf, by simp [Passage.ofPool, hstage]⟩
  have hsome : 0 < e.firings.countP Passage.ofPool.has := by
    show 0 < e.occupancy .ofPool
    rw [Nat.add_zero] at hfull
    rw [hfull]
    exact Nat.le_max_left 1 workers
  obtain ⟨g, hg, hplace⟩ := List.countP_pos_iff.1 hsome
  exact hn.lively_of_placed hg hplace

/-- A firing that has its lock finds a place in the pool, or all of them are taken. -/
theorem lively_of_locked (hf : f ∈ e.firings) (hstage : f.stage = .locked) : e.Lively := by
  -- Nobody has a place, or somebody has.
  rcases Nat.eq_zero_or_pos (e.occupancy .ofPool) with hzero | hpos
  · have hpool := h.pool
    rw [Accounted, hzero] at hpool
    have hopen : e.pool.isOpen = true :=
      hpool.isOpen_of_vacant (Nat.ne_of_gt (Nat.le_max_left 1 workers))
    -- The pool is open, so the firing is placed.
    refine .inr ⟨f, hf, proceeds_of_advance .placed (hn.firing?_eq hf) ?_ ?_⟩
    · rw [hstage]
      rfl
    · simp only [Engine.advance, hstage, Engine.takePlace, hopen]
      rfl
  -- Whoever has a place goes on.
  · obtain ⟨g, hg, hplace⟩ := List.countP_pos_iff.1 hpos
    exact hn.lively_of_placed hg hplace

/-- Whoever waits for a lock waits for a firing that is past it. -/
theorem lively_of_holder (lock : Nat) (hpos : 0 < e.occupancy (.ofLock lock)) : e.Lively := by
  obtain ⟨g, hg, hhas⟩ := List.countP_pos_iff.1 hpos
  have hpast : g.stage.isPastLock = true := by
    simp only [Passage.ofLock, Bool.and_eq_true] at hhas
    exact hhas.2
  -- Past its lock a firing is on its way to the pool, waits there or has a place.
  cases hstage : g.stage with
  | locked => exact h.lively_of_locked hn hg hstage
  | atPool => exact h.lively_of_atPool hn hg hstage
  | placed | inside => exact hn.lively_of_placed hg (by simp [hstage, Firing.Stage.hasPlace])
  | fresh | atLock => simp [hstage, Firing.Stage.isPastLock] at hpast

/-- Whoever waits for a lock finds that it is held. -/
theorem lively_of_atLock (hf : f ∈ e.firings) (hstage : f.stage = .atLock) : e.Lively := by
  have hheld := (h.locks f.lock).inside_eq
    ⟨f, hn.firing?_eq hf, by simp [Passage.ofLock, hstage]⟩
  exact h.lively_of_holder hn f.lock (by omega)

/-- A firing that was just set off finds its lock free, or somebody has it. -/
theorem lively_of_fresh (hf : f ∈ e.firings) (hstage : f.stage = .fresh) : e.Lively := by
  -- If the lock is open, the firing takes it.
  have hproceeds (hopen : f.job.exclusive = true → (e.turns f.lock).isOpen = true) :
      e.Proceeds f := by
    refine proceeds_of_advance .locked (hn.firing?_eq hf) ?_ ?_
    · rw [hstage]
      rfl
    · simp only [Engine.advance, hstage, Engine.takeLock]
      split
      · next hexclusive =>
        rw [hopen hexclusive]
        rfl
      · rfl
  -- Nobody has the lock, or somebody has.
  rcases Nat.eq_zero_or_pos (e.occupancy (.ofLock f.lock)) with hzero | hpos
  · have hlock := h.locks f.lock
    rw [Accounted, hzero] at hlock
    exact .inr ⟨f, hf, hproceeds fun _ => hlock.isOpen_of_vacant Nat.one_ne_zero⟩
  · exact h.lively_of_holder hn f.lock hpos

/-- As long as there are firings, one of them is inside the handler or can go on. -/
theorem lively (hf : f ∈ e.firings) : e.Lively := by
  -- Each stage by its lemma.
  cases hstage : f.stage with
  | fresh => exact h.lively_of_fresh hn hf hstage
  | atLock => exact h.lively_of_atLock hn hf hstage
  | locked => exact h.lively_of_locked hn hf hstage
  | atPool => exact h.lively_of_atPool hn hf hstage
  | placed | inside => exact hn.lively_of_placed hf (by simp [hstage, Firing.Stage.hasPlace])

end Occupied

/-- The pool keeps to its size, no firing takes a place before it has its lock, and firings do
    not block one another. -/
structure Unblocked (workers : Nat) (e : Engine) : Prop where
  bounded : e.firings.countP (fun f => f.stage = .inside) ≤ max 1 workers
  /-- Every place is free, or a firing that is past the pool has it, and so none that waits for its
      lock. -/
  places : e.pool.free + e.firings.countP (·.stage.hasPlace) = max 1 workers
  /-- For a firing that waits for its lock no place is kept either: it does not wait in the pool as
      well. -/
  placeless : ∀ f ∈ e.firings, f.stage = .atLock → f.number ∉ e.pool.waiting
  /-- While a firing waits, one is inside the handler, or one that is not can go on. -/
  lively : ∀ f ∈ e.firings, f.stage ≠ .inside →
    (∃ g ∈ e.firings, g.stage = .inside) ∨ ∃ g ∈ e.firings, g.stage ≠ .inside ∧ e.Proceeds g

/-- However the steps of callers, loops and firings are mixed, the pool is bounded and nothing
    blocks. -/
theorem pool_bounded_and_live (workers : Nat) (moves : List Move) :
    ((ofWorkers workers).run moves).Unblocked workers := by
  -- What is true after every run, and nothing else about it, is used.
  have hsound : ((ofWorkers workers).run moves).Sound := (Sound.ofWorkers workers).run moves
  have hoccupied := Occupied.run workers moves
  generalize (ofWorkers workers).run moves = e at hsound hoccupied
  have hplaces : e.pool.free + e.firings.countP (·.stage.hasPlace) = max 1 workers :=
    hoccupied.pool.total
  refine ⟨?_, hplaces, fun f hf hstage hqueued => ?_, fun f hf _ => ?_⟩
  · -- Whoever is inside has a place.
    have hle : e.firings.countP (fun f => f.stage = .inside) ≤
        e.firings.countP (·.stage.hasPlace) := by
      refine List.countP_mono_left fun f _ hinside => ?_
      rw [of_decide_eq_true hinside]
      rfl
    omega
  -- Whoever is queued in the pool waits there, so it does not wait for a lock.
  · exact (hsound.takesTurns.queued f.number hqueued).ne (hsound.numbered.firing?_eq hf)
      (by simp [hstage]) rfl
  -- Somebody can go on, and a firing in the handler has nowhere to go on to.
  · rcases hoccupied.lively hsound.numbered hf with hinside | ⟨g, hg, hproceeds⟩
    · exact .inl hinside
    · refine .inr ⟨g, hg, fun hinside => ?_, hproceeds⟩
      obtain ⟨stage, hnext, -⟩ := hproceeds
      rw [hinside] at hnext
      cases hnext

/-- A job for every second of 1970. -/
private def secondlyJob (name : String) (exclusive : Bool) : ScheduledJob :=
  ⟨name, ⟨"* * * * * * 1970", Cron.interval 0 59, Cron.interval 0 59, Cron.interval 0 23,
    Cron.interval 1 31, Cron.interval 1 12, Cron.interval 1 7, [1970]⟩, ⟨⟨∅, none⟩, false, none⟩,
    exclusive⟩

/-- Two jobs share a pool of one place, and the exclusive one is installed a second time while
    its first firing has the place. -/
private def crowdingMoves : List Move :=
  [.launch (.ofSecond 0) (secondlyJob "a" true), .enlist "a" 1,
    .launch (.ofSecond 0) (secondlyJob "b" false), .enlist "b" 3,
    .wake (.ofSecond 1) 1, .advance 4, .advance 4,
    .wake (.ofSecond 1) 3, .advance 5, .advance 5,
    .launch (.ofSecond 2) (secondlyJob "a" true), .enlist "a" 6, .wake (.ofSecond 3) 6, .advance 7]

/-- One firing has the place, the next one waits in the pool and the last one for its lock. -/
theorem unblocked_in_full_pool :
    ((ofWorkers 1).run crowdingMoves).firings.map (·.stage) = [.placed, .atPool, .atLock] ∧
      ((ofWorkers 1).run crowdingMoves).Unblocked 1 :=
  ⟨by decide +kernel, pool_bounded_and_live 1 crowdingMoves⟩

end Engine

end FlowCadence
