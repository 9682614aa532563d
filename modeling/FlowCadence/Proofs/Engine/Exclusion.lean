import FlowCadence.Proofs.Engine.Locks
import FlowCadence.Proofs.Engine.Turns
/-! # Firings of a name never overlap

Two firings of exclusive jobs of one name are never inside the handler at once, however
the steps of callers, loops and firings are mixed, and also while the job is removed,
replaced or installed again: they were given one lock, and it lets one of them in at a
time.

## Key results

* `Sound.step`, `Sound.run`: every move keeps one lock for a name, and turns at each lock
* `firings_never_overlap`: one firing of a name at most is inside the handler -/

namespace FlowCadence.Engine

variable {e : Engine}

/-- What every move keeps. -/
structure Sound (e : Engine) : Prop where
  shares : e.SharesLocks
  numbered : e.Numbered
  takesTurns : e.TakesTurns

namespace Sound

/-- An engine that was just made has nothing to keep. -/
theorem ofWorkers (workers : Nat) : (ofWorkers workers).Sound where
  shares := .ofWorkers workers
  numbered := .ofWorkers workers
  takesTurns := .ofWorkers workers

/-- A move that spares the firings has to keep the locks only. -/
theorem of_spared (h : e.Sound) {e' : Engine} (hshares : e'.SharesLocks)
    (hspared : e.SparesFirings e') : e'.Sound where
  shares := hshares
  numbered := h.numbered.of_spared hspared
  takesTurns := h.takesTurns.of_spared hspared

/-- Every move keeps the three: locks are kept by every move, and firings are numbered and take
turns by what a move can do to them. -/
theorem step (h : e.Sound) (move : Move) : (e.step move).Sound := by
  have hshares := h.shares.step move
  rcases step_cases e move with hspared | ⟨now, l, -, heq⟩ | ⟨f, hf, heq⟩ |
    ⟨f, broken, hf, hstage, heq⟩
  -- Nothing happens to the firings.
  · exact h.of_spared hshares hspared
  -- A loop sets one off, one goes on, or one is over.
  all_goals rw [heq] at hshares ⊢
  · exact ⟨hshares, h.numbered.setOff now l, h.takesTurns.setOff now l⟩
  · exact ⟨hshares, h.numbered.advance f, h.takesTurns.advance hf⟩
  · exact ⟨hshares, h.numbered.finish f broken, h.takesTurns.finish hf hstage broken⟩

/-- So does every run, by induction on its moves. -/
theorem run (h : e.Sound) (moves : List Move) : (e.run moves).Sound :=
  run_keeps (P := Sound) (fun _ move hs => hs.step move) h moves

/-- Firings of exclusive jobs of one name have one lock, so only one of them is past it. -/
theorem number_eq (h : e.Sound) {f g : Firing} (hf : f ∈ e.firings) (hg : g ∈ e.firings)
    (hname : f.job.name = g.job.name) (hfx : f.job.exclusive = true)
    (hgx : g.job.exclusive = true) (hfs : f.stage.isPastLock = true)
    (hgs : g.stage.isPastLock = true) : f.number = g.number := by
  -- Both use the lock that the table has for the name.
  have hlock : f.lock = g.lock := by
    have hf' := h.shares f.job f.lock (mem_uses_of_firing hf)
    have hg' := h.shares g.job g.lock (mem_uses_of_firing hg)
    rw [hname, hg'] at hf'
    exact (Option.some.inj hf').symm
  -- That lock lets one of them in.
  exact (h.takesTurns.turns g.lock).alone _ _ ⟨f, h.numbered.firing?_eq hf, hfx, hlock, hfs⟩
    ⟨g, h.numbered.firing?_eq hg, hgx, rfl, hgs⟩

end Sound

/-- However the steps of callers, loops and firings are mixed, one firing of exclusive
    jobs of a name is inside the handler at most. -/
theorem firings_never_overlap (workers : Nat) (moves : List Move) (name : String) :
    ((ofWorkers workers).run moves).firings.countP
      (fun f => f.job.name = name ∧ f.job.exclusive = true ∧ f.stage = .inside) ≤ 1 := by
  -- The run is sound, and soundness is all that is used of it.
  have hsound : ((ofWorkers workers).run moves).Sound := (Sound.ofWorkers workers).run moves
  generalize (ofWorkers workers).run moves = e at hsound
  let p (f : Firing) : Bool :=
    decide (f.job.name = name ∧ f.job.exclusive = true ∧ f.stage = .inside)
  have hmem (f : Firing) (hf : f ∈ e.firings.filter p) : f ∈ e.firings ∧ f.job.name = name ∧
      f.job.exclusive = true ∧ f.stage = .inside := by
    obtain ⟨hf, hp⟩ := List.mem_filter.1 hf
    exact ⟨hf, of_decide_eq_true hp⟩
  -- The firings in question have numbers of their own, as all have.
  have hlone : ((e.firings.filter p).map (·.number)).Nodup :=
    hsound.numbered.lone.sublist (List.filter_sublist.map _)
  rw [List.countP_eq_length_filter]
  match hfirings : e.firings.filter p with
  | [] => exact Nat.zero_le 1
  | [_] => exact Nat.le_refl 1
  | f :: g :: rest =>
    -- Two of them would have one number.
    rw [hfirings] at hmem hlone
    obtain ⟨hf, hfname, hfx, hfs⟩ := hmem f List.mem_cons_self
    obtain ⟨hg, hgname, hgx, hgs⟩ := hmem g (List.mem_cons_of_mem _ List.mem_cons_self)
    have hnumber := hsound.number_eq hf hg (hfname.trans hgname.symm) hfx hgx (by rw [hfs]; rfl)
      (by rw [hgs]; rfl)
    simp [hnumber] at hlone

/-- A job for every second of 1970. -/
private def everySecond : ScheduledJob :=
  ⟨"a", ⟨"* * * * * * 1970", Cron.interval 0 59, Cron.interval 0 59, Cron.interval 0 23,
    Cron.interval 1 31, Cron.interval 1 12, Cron.interval 1 7, [1970]⟩, ⟨⟨∅, none⟩, false, none⟩,
    true⟩

/-- A job is removed and installed again while a firing is inside the handler.  The lock of
    its name was not dropped, so the firing of the new loop waits for it. -/
example :
    let before : List Move := [.launch (.ofSecond 0) everySecond, .enlist "a" 1,
      .wake (.ofSecond 1) 1, .advance 2, .advance 2, .advance 2]
    let again : List Move := [.withdraw "a", .reap 1, .sweep "a", .launch (.ofSecond 2) everySecond,
      .enlist "a" 3, .wake (.ofSecond 3) 3, .advance 4]
    ((ofWorkers 2).run (before ++ again)).firings.map (·.stage) = [.inside, .atLock] := by
  decide +kernel

end FlowCadence.Engine
