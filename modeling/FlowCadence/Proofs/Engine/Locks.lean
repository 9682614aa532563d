import FlowCadence.Proofs.Engine.Effect
/-! # One lock for a name

All loops and firings of a name were given one lock, and it is the one in the table.  A
new loop takes the lock from there, a firing takes that of its loop, and a lock only
leaves the table when nobody else holds on to it: whoever uses a lock counts, also a loop
that was ended and does not know of it yet, and a firing whose job was removed.

## Key results

* `SharesLocks.one_lt_references`: a lock in use has two references at least
* `SharesLocks.sweep`, `SharesLocks.sweepAll`: a lock that is dropped is in nobody's use
* `SharesLocks.launch`, `SharesLocks.setOff`: new loops and firings use the lock of their name
* `SharesLocks.step`: whatever happens next -/

namespace FlowCadence.Engine

variable {e : Engine}

/-- The job and the lock of every loop and of every firing. -/
def uses (e : Engine) : List (ScheduledJob × Nat) :=
  e.loops.map (fun l => (l.job, l.lock)) ++ e.firings.map fun f => (f.job, f.lock)

/-- Every lock in use is the one that the table has for the name. -/
def SharesLocks (e : Engine) : Prop :=
  ∀ job lock, (job, lock) ∈ e.uses → e.locks[job.name]? = some lock

@[simp] theorem uses_note (e : Engine) (event : Event) : (e.note event).uses = e.uses := rfl

/-- Queues at locks are not uses. -/
@[simp] theorem uses_setTurns (e : Engine) (lock : Nat) (t : Turnstile Nat) :
    (e.setTurns lock t).uses = e.uses :=
  rfl

@[simp] theorem uses_setLoop (e : Engine) (number : Nat) (stage : Loop.Stage) :
    (e.setLoop number stage).uses = e.uses :=
  congrArg (· ++ _) (map_map_ite (g := fun l => { l with stage }) (fun _ => rfl) e.loops)

/-- A loop that is told to end still has its lock. -/
@[simp] theorem uses_endLoop (e : Engine) (number : Nat) : (e.endLoop number).uses = e.uses :=
  congrArg (· ++ _) (map_map_ite (g := fun l => { l with ended := true }) (fun _ => rfl) e.loops)

@[simp] theorem uses_tell (e : Engine) (firing : Nat) (broken : Bool) :
    (e.tell firing broken).uses = e.uses :=
  congrArg (· ++ _)
    (map_map_ite (g := fun l => { l with stage := .told broken }) (fun _ => rfl) e.loops)

@[simp] theorem uses_setFiring (e : Engine) (number : Nat) (stage : Firing.Stage) :
    (e.setFiring number stage).uses = e.uses :=
  congrArg (_ ++ ·) (map_map_ite (g := fun f => { f with stage }) (fun _ => rfl) e.firings)

/-- A loop uses the lock that it was given. -/
theorem mem_uses_of_loop {l : Loop} (h : l ∈ e.loops) : (l.job, l.lock) ∈ e.uses :=
  List.mem_append_left _ (List.mem_map.2 ⟨l, h, rfl⟩)

/-- A firing uses the lock that it was given. -/
theorem mem_uses_of_firing {f : Firing} (h : f ∈ e.firings) : (f.job, f.lock) ∈ e.uses :=
  List.mem_append_right _ (List.mem_map.2 ⟨f, h, rfl⟩)

/-- The references of loops and firings to a lock are counted as uses. -/
theorem countP_loops_add_countP_firings (e : Engine) (lock : Nat) :
    e.loops.countP (fun l => l.lock = lock) + e.firings.countP (fun f => f.lock = lock) =
      e.uses.countP fun u => u.2 = lock := by
  rw [uses, List.countP_append, List.countP_map, List.countP_map]
  rfl

namespace SharesLocks

/-- A lock in use is referred to twice at least, by the table and by its user. -/
theorem one_lt_references (h : e.SharesLocks) {job : ScheduledJob} {lock : Nat}
    (hu : (job, lock) ∈ e.uses) : 1 < e.references lock := by
  -- The first reference is the table's, and the second is the user's.
  have htable : 0 < e.locks.toList.countP fun entry => entry.2 = lock := by
    refine List.countP_pos_iff.2 ⟨(job.name, lock), ?_, by simp⟩
    exact Std.ExtTreeMap.mem_toList_iff_getElem?_eq_some.2 (h job lock hu)
  have huser : 0 < e.uses.countP fun u => u.2 = lock :=
    List.countP_pos_iff.2 ⟨(job, lock), hu, by simp⟩
  rw [references, Nat.add_assoc, countP_loops_add_countP_firings]
  omega

/-- Without loops and firings no lock is in use. -/
theorem ofWorkers (workers : Nat) : (ofWorkers workers).SharesLocks := by
  intro job lock hu
  cases hu

/-- Uses may end while the table stays as it is. -/
theorem of_subset (h : e.SharesLocks) {e' : Engine} (hlocks : e'.locks = e.locks)
    (huses : e'.uses ⊆ e.uses) : e'.SharesLocks := by
  intro job lock hu
  rw [hlocks]
  exact h job lock (huses hu)

/-- A lock that is found or made for a name changes no other name's. -/
theorem lockFor (h : e.SharesLocks) (name : String) :
    (e.lockFor name).1.SharesLocks ∧ (e.lockFor name).1.locks[name]? = some (e.lockFor name).2 := by
  rw [Engine.lockFor]
  split
  · next lock hlock => exact ⟨h, hlock⟩
  · next hnone =>
    refine ⟨fun job lock hu => ?_, by simp⟩
    have hold := h job lock hu
    -- The name had no lock, so nobody uses one under it.
    have hne : name ≠ job.name := by
      rintro rfl
      rw [hnone] at hold
      cases hold
    rw [Table.lookUp_insert, if_neg hne]
    exact hold

/-- A new loop is given the lock that the table has for its name. -/
theorem launch (h : e.SharesLocks) (now : Instant) (job : ScheduledJob) :
    (e.launch now job).1.SharesLocks := by
  obtain ⟨hshare, hlock⟩ := h.lockFor job.name
  intro other lock hu
  simp only [Engine.launch, uses, List.map_append, List.mem_append, List.map_cons, List.map_nil,
    List.mem_singleton] at hu
  -- The loops that were there, the new one, and the firings.
  rcases hu with (hl | heq) | hf
  · exact hshare other lock (List.mem_append_left _ hl)
  · cases heq
    exact hlock
  · exact hshare other lock (List.mem_append_right _ hf)

/-- A loop that is told to end holds on to its lock. -/
theorem endLoop (h : e.SharesLocks) (number : Nat) : (e.endLoop number).SharesLocks :=
  h.of_subset rfl (by simp)

/-- Entering a loop under its name changes no lock. -/
theorem enlist (h : e.SharesLocks) (name : String) (number : Nat) :
    (e.enlist name number).SharesLocks := by
  rw [Engine.enlist]
  split
  · exact (h.endLoop _).of_subset rfl (List.Subset.refl _)
  · exact h.of_subset rfl (List.Subset.refl _)

/-- A removal leaves the lock in the table. -/
theorem withdraw (h : e.SharesLocks) (name : String) : (e.withdraw name).SharesLocks := by
  rw [Engine.withdraw]
  split
  · exact SharesLocks.endLoop (h.of_subset rfl (List.Subset.refl _)) _
  · exact h

/-- A lock that is dropped is in nobody's use. -/
theorem sweep (h : e.SharesLocks) (name : String) : (e.sweep name).SharesLocks := by
  rw [Engine.sweep]
  split
  · next dropped hdropped =>
    split
    -- The lock has one reference, the table's.
    · next hone =>
      intro job lock hu
      have hlock := h job lock hu
      -- Were it the lock of this name, its user would be a second reference.
      have hne : name ≠ job.name := by
        rintro rfl
        obtain rfl : lock = dropped := Option.some.inj (hlock.symm.trans hdropped)
        exact absurd (h.one_lt_references hu) (by omega)
      show (e.locks.erase name)[job.name]? = some lock
      rw [Table.lookUp_erase, if_neg hne]
      exact hlock
    -- The lock is in use, or the name has none: it stays.
    · exact h
  · exact h

/-- Where all locks that are not in use are dropped, those in use stay. -/
theorem sweepAll (h : e.SharesLocks) : e.sweepAll.SharesLocks := by
  intro job lock hu
  have hlock := h job lock hu
  have hkept := h.one_lt_references hu
  -- The table is filtered by references, and this lock has more than one.
  show (e.locks.filter fun _ lock => decide (1 < e.references lock))[job.name]? = some lock
  rw [Std.ExtTreeMap.getElem?_filter']
  simp [hlock, hkept]

/-- A firing uses the lock of its loop. -/
theorem setOff (h : e.SharesLocks) (now : Instant) {l : Loop} (hl : l ∈ e.loops) :
    (e.setOff now l).SharesLocks := by
  refine h.of_subset rfl ?_
  simp only [Engine.setOff, uses_setLoop]
  -- The loops and firings that were there, and the new firing.
  intro u hu
  simp only [uses, List.map_append, List.mem_append, List.map_cons, List.map_nil,
    List.mem_singleton] at hu
  rcases hu with hu | hu | rfl
  · exact List.mem_append_left _ hu
  · exact List.mem_append_right _ hu
  · exact mem_uses_of_loop hl

/-- A loop that goes on or ends keeps its lock until it is reaped. -/
theorem resume (h : e.SharesLocks) (now : Instant) (number : Nat) :
    (e.resume now number).SharesLocks := by
  rw [Engine.resume]
  split
  · split
    · dsimp only
      split <;> exact h.of_subset rfl (by simp)
    · exact h
  · exact h

/-- With a loop that has ended its use of the lock is gone. -/
theorem reap (h : e.SharesLocks) (number : Nat) : (e.reap number).SharesLocks := by
  refine h.of_subset rfl ?_
  exact List.append_subset.2 ⟨List.Subset.trans (List.map_subset _ (List.filter_sublist.subset))
    (List.subset_append_left _ _), List.subset_append_right _ _⟩

/-- A firing that goes on keeps the lock that it was given. -/
theorem advance (h : e.SharesLocks) (f : Firing) : (e.advance f).SharesLocks := by
  rw [Engine.advance]
  -- It takes its lock, or a place, or calls the handler, and each changes its stage alone.
  split
  · rw [takeLock]
    split <;> exact h.of_subset rfl (by simp)
  · exact h.of_subset rfl (by rw [takePlace, uses_setFiring]; exact List.Subset.refl _)
  · exact h.of_subset rfl (by rw [callHandler, uses_note, uses_setFiring]; exact List.Subset.refl _)
  all_goals exact h

/-- A place in the pool is no lock. -/
theorem freePlace (h : e.SharesLocks) : e.freePlace.1.SharesLocks := by
  rw [freePlace_eq]
  split
  · exact h.of_subset rfl (by rw [uses_setFiring]; exact List.Subset.refl _)
  · exact h.of_subset rfl (List.Subset.refl _)

/-- A lock that is passed on stays the lock of whoever uses it. -/
theorem freeLock (h : e.SharesLocks) (lock : Nat) : (e.freeLock lock).1.SharesLocks := by
  rw [freeLock_eq]
  split
  · exact h.of_subset rfl (by simp)
  · exact h.of_subset rfl (by simp)

/-- With a firing that is over its use of the lock is gone. -/
theorem finish (h : e.SharesLocks) (f : Firing) (broken : Bool) :
    (e.finish f broken).1.SharesLocks := by
  -- First the record, then the firing goes.
  have hnoted : (e.noteFinish f broken).SharesLocks := by
    rw [noteFinish]
    split <;> exact h.of_subset rfl (by simp)
  have hgone : ((e.noteFinish f broken).dismiss f.number).SharesLocks := by
    refine hnoted.of_subset rfl ?_
    exact List.append_subset.2 ⟨List.subset_append_left _ _,
      List.Subset.trans (List.map_subset _ (List.filter_sublist.subset))
        (List.subset_append_right _ _)⟩
  -- Then place and lock are freed, and the loop is told, which uses nothing new.
  rw [finish_eq]
  refine SharesLocks.of_subset (e := if f.job.exclusive then _ else _) ?_ rfl (by simp)
  split
  · exact hgone.freePlace.freeLock f.lock
  · exact hgone.freePlace

/-- All moves keep one lock for a name. -/
theorem step (h : e.SharesLocks) (move : Move) : (e.step move).SharesLocks := by
  -- Moves of callers and loops by their lemmas, and moves that find nobody change nothing.
  cases move with
  | launch now job => exact h.launch now job
  | enlist name number => exact h.enlist name number
  | withdraw name => exact h.withdraw name
  | sweep name => exact h.sweep name
  | sweepAll => exact h.sweepAll
  | endLoop number => exact h.endLoop number
  | resume now number => exact h.resume now number
  | reap number => exact h.reap number
  | wake now number =>
    rcases wake_cases e now number with heq | ⟨l, hl, heq⟩ <;> rw [heq]
    · exact h
    · exact h.setOff now hl
  | advance number =>
    rcases advance_cases e number with heq | ⟨f, -, heq⟩ <;> rw [heq]
    · exact h
    · exact h.advance f
  | finish number broken =>
    rcases finish_cases e number broken with heq | ⟨f, -, -, heq⟩ <;> rw [heq]
    · exact h
    · exact h.finish f broken

end SharesLocks

end FlowCadence.Engine
