import FlowCadence.Leadership.Loop
import FlowCadence.Proofs.Leadership.OneLeader
import FlowCadence.Proofs.Node.StepDown
/-! # Leading with a lease in hand

Whenever its loop rests, a node leads if and only if it has a lease in hand: one that was
granted, and that has not been lost or released since.  A lease is asked for with none in
hand, and only the lease in hand is renewed or released.  It is released once, when the loop
has been told to stop and the node has stepped down; where none is in hand, nothing is.

All of this hangs on the answers alone, whatever they are, and not on what the node does
otherwise.

## Key results

* `inHand_eq_lastGranted`: the lease in hand is the one that was granted last
* `InStep.step`, `InStep.run`: what every move of a candidate keeps
* `Exits.step`, `Exits.run`: how a candidate comes to its end
* `leads_iff_lease_in_hand`: the node leads with a lease in hand, and without one it does not -/

namespace FlowCadence.Leadership

variable {s : Node.Setup} {t : Terms}

/-! ### Exchanges -/

namespace Exchange

/-- The lease that was granted, if one was. -/
def granted? : Exchange → Option Lease
  | ⟨.acquire .., .ok (some lease), _⟩ => some lease
  | _ => none

/-- The lease in hand after an exchange: a granted one, or the one from before unless it was
    not renewed or has been released. -/
def leaves (held : Option Lease) : Exchange → Option Lease
  | ⟨.acquire .., .ok (some lease), _⟩ => some lease
  | ⟨.acquire .., .ok none, _⟩ | ⟨.acquire .., .error _, _⟩ => held
  | ⟨.renew .., .ok true, _⟩ => held
  | ⟨.renew .., .ok false, _⟩ | ⟨.renew .., .error _, _⟩ => none
  | ⟨.release _, _, _⟩ => none

end Exchange

/-- The lease in hand after exchanges, of which the latest comes first. -/
def inHand : List Exchange → Option Lease
  | [] => none
  | x :: past => x.leaves (inHand past)

/-- The lease that was granted last. -/
def lastGranted (past : List Exchange) : Option Lease := past.findSome? Exchange.granted?

/-- No other lease than the last one is ever in hand. -/
theorem inHand_eq_lastGranted {lease : Lease} {past : List Exchange}
    (h : inHand past = some lease) : lastGranted past = some lease := by
  induction past with
  | nil => cases h
  | cons x past ih =>
    obtain ⟨request, answer, leading⟩ := x
    rw [inHand] at h
    -- What an exchange leaves in hand is the lease that it has granted, or the one from before.
    rw [lastGranted, List.findSome?_cons]
    cases request with
    | acquire scope holder seconds =>
      match answer with
      | .ok (some granted) => exact h
      | .ok none | .error fault => exact ih h
    | renew held seconds =>
      match answer with
      | .ok true => exact ih h
      | .ok false | .error fault => cases h
    | release held => cases h

/-- A request is in order, if these exchanges went before it: a lease is asked for on the
    node's own terms, with none in hand and on standby; the lease in hand, which is the one
    that was granted last, is renewed by a leading node and released on standby. -/
def Exchange.Fits (t : Terms) (earlier : List Exchange) (x : Exchange) : Prop :=
  match x.request with
  | .acquire scope' holder seconds =>
    inHand earlier = none ∧ x.leading = false ∧
      scope' = scope ∧ holder = t.holder ∧ seconds = t.leaseSeconds
  | .renew lease seconds =>
    inHand earlier = some lease ∧ lastGranted earlier = some lease ∧ x.leading = true ∧
      seconds = t.leaseSeconds
  | .release lease =>
    inHand earlier = some lease ∧ lastGranted earlier = some lease ∧ x.leading = false

/-- The exchange is about the release of a lease. -/
def Exchange.isRelease (x : Exchange) : Bool :=
  match x.request with
  | .release _ => true
  | .acquire .. | .renew .. => false

/-- The lease that the loop takes to be in hand: once a lease is lost, it has none. -/
def Loop.owned : Loop → Option Lease
  | .falling _ => none
  | loop => loop.held

/-! ### Ticks and stops -/

namespace Loop

/-- The second loop is the first one after it was woken or told to stop: it has what it had,
    its node may lead if it might before, and it does not go on from its end. -/
structure Prompted (l l' : Loop) : Prop where
  owned : l'.owned = l.owned
  leads : (Stage.loop l').leads = (Stage.loop l).leads
  ended : l'.isStopped = false → l.isStopped = false

/-- A loop that is woken has what it had. -/
theorem prompted_wake (l : Loop) : l.Prompted l.wake := by
  cases l with
  | resting held => cases held <;> exact ⟨rfl, rfl, fun _ => rfl⟩
  | stopped => exact ⟨rfl, rfl, id⟩
  | _ => exact ⟨rfl, rfl, fun _ => rfl⟩

/-- So has one that is told to stop. -/
theorem prompted_quit (l : Loop) : l.Prompted l.quit := by
  cases l with
  | resting held => cases held <;> exact ⟨rfl, rfl, fun _ => rfl⟩
  | stopped => exact ⟨rfl, rfl, id⟩
  | _ => exact ⟨rfl, rfl, fun _ => rfl⟩

/-- The loop is in a tick, or it waits for one. -/
def ticks : Loop → Bool
  | .resting _ | .acquiring | .renewing _ | .rising _ | .falling _ => true
  | .leaving _ | .releasing _ | .stopped => false

end Loop

/-! ### What every move keeps -/

/-- A candidate whose flag, loop and exchanges agree. -/
structure InStep (t : Terms) (c : Candidate) : Prop where
  /-- The node leads at the stages where it may. -/
  leads : c.node.active = (Stage.loop c.loop).leads
  owns : inHand c.past = c.loop.owned
  fits : ∀ x earlier, x :: earlier <:+ c.past → x.Fits t earlier
  /-- No lease is released before the end. -/
  keeps : c.loop.isStopped = false → ∀ x ∈ c.past, x.isRelease = false

namespace InStep

variable {l l' : Loop} {n n' : Node} {past : List Exchange} {x : Exchange}

/-- A candidate begins with nothing in hand, on standby. -/
theorem start (h : n.active = false) (t : Terms) : InStep t (.start n) where
  leads := h
  owns := rfl
  fits x earlier hsuffix := by simp [Candidate.start] at hsuffix
  keeps _ x hx := by simp [Candidate.start] at hx

/-- The loop goes on without an exchange. -/
theorem goOn (h : InStep t ⟨l, n, past⟩) (hleads : n'.active = (Stage.loop l').leads)
    (howned : l'.owned = l.owned) (hend : l'.isStopped = false → l.isStopped = false) :
    InStep t ⟨l', n', past⟩ where
  leads := hleads
  owns := h.owns.trans howned.symm
  fits := h.fits
  keeps hl' := h.keeps (hend hl')

/-- A tick or a stop changes nothing that matters. -/
theorem prompt (h : InStep t ⟨l, n, past⟩) (hl : l.Prompted l') : InStep t ⟨l', n, past⟩ :=
  h.goOn (h.leads.trans hl.leads.symm) hl.owned hl.ended

/-- The loop goes on with an exchange, which is the last one if a lease is released. -/
theorem exchange (h : InStep t ⟨l, n, past⟩) (hl : l.isStopped = false) (hx : x.Fits t past)
    (hleads : n'.active = (Stage.loop l').leads) (howns : x.leaves (inHand past) = l'.owned)
    (hend : x.isRelease = l'.isStopped) : InStep t ⟨l', n', x :: past⟩ where
  leads := hleads
  owns := howns
  fits y earlier hy := by
    -- The exchange is the new one, or one from before.
    rcases List.suffix_cons_iff.1 hy with heq | hsuffix
    · cases heq
      exact hx
    · exact h.fits y earlier hsuffix
  keeps hl' y hy := by
    -- An exchange that is no release goes before the end.
    rcases List.mem_cons.1 hy with rfl | hmem
    · exact hend.trans hl'
    · exact h.keeps hl y hmem

/-- One step of the loop keeps flag, loop and exchanges in agreement, whatever is answered. -/
theorem stride (h : InStep t ⟨l, n, past⟩) (replies : Node.Replies)
    (answer : (r : Lease.Request) → r.Answer) :
    InStep t (Candidate.step s t ⟨l, n, past⟩ (.step replies answer)) := by
  have howns : inHand past = l.owned := h.owns
  have hactive : n.active = (Stage.loop l).leads := h.leads
  cases l with
  -- A loop that rests or has stopped does nothing.
  | resting held => exact h.goOn hactive rfl id
  | stopped => exact h.goOn hactive rfl id
  | rising lease => exact h.goOn (Node.active_lead _ _ _) rfl fun _ => rfl
  -- A lost lease was out of hand when the answer came, before the node steps down.
  | falling lease => exact h.goOn (Node.active_lead _ _ _) rfl fun _ => rfl
  | leaving lease => exact h.goOn (Node.active_lead _ _ _) rfl fun _ => rfl
  | acquiring =>
    -- It asks with nothing in hand and on standby, on its own terms.
    have hx (a : Except Fault (Option Lease)) : Exchange.Fits t past
        ⟨.acquire scope t.holder t.leaseSeconds, a, n.active⟩ := ⟨howns, hactive, rfl, rfl, rfl⟩
    simp only [Candidate.step, Loop.step, Candidate.recorder]
    -- It is granted a lease or not.
    cases answer (.acquire scope t.holder t.leaseSeconds) with
    | error fault => exact h.exchange rfl (hx _) hactive howns rfl
    | ok granted? =>
      cases granted? with
      | none => exact h.exchange rfl (hx _) hactive howns rfl
      | some lease => exact h.exchange rfl (hx _) hactive rfl rfl
  | renewing lease =>
    -- It renews the lease in hand.
    have hx (a : Except Fault Bool) : Exchange.Fits t past
        ⟨.renew lease t.leaseSeconds, a, n.active⟩ :=
      ⟨howns, inHand_eq_lastGranted howns, hactive, rfl⟩
    simp only [Candidate.step, Loop.step, Candidate.recorder]
    -- The lease is renewed, or it is lost at once.
    cases answer (.renew lease t.leaseSeconds) with
    | error fault => exact h.exchange rfl (hx _) hactive rfl rfl
    | ok renewed =>
      cases renewed with
      | true => exact h.exchange rfl (hx _) hactive howns rfl
      | false => exact h.exchange rfl (hx _) hactive rfl rfl
  | releasing lease =>
    -- It releases the lease in hand, and the node has stepped down.
    have hx (a : Except Fault Unit) : Exchange.Fits t past ⟨.release lease, a, n.active⟩ :=
      ⟨howns, inHand_eq_lastGranted howns, hactive⟩
    simp only [Candidate.step, Loop.step, Candidate.recorder]
    -- Whatever the answer is, the lease is out of hand.
    cases answer (.release lease) with
    | ok _ | error fault => exact h.exchange rfl (hx _) hactive rfl rfl

/-- Every move keeps flag, loop and exchanges in agreement. -/
theorem step {c : Candidate} (h : InStep t c) (move : Candidate.Move) :
    InStep t (c.step s t move) := by
  obtain ⟨l, n, past⟩ := c
  cases move with
  | wake => exact h.prompt l.prompted_wake
  | quit => exact h.prompt l.prompted_quit
  | step replies answer => exact h.stride replies answer
  -- Other work of the node is neither an exchange nor a change of leadership.
  | work replies chore =>
    exact h.goOn ((Node.active_chore_act _ _ _).trans h.leads) rfl id

/-- What every move keeps, every run keeps. -/
theorem run {c : Candidate} (h : InStep t c) (moves : List Candidate.Move) :
    InStep t (c.run s t moves) :=
  List.foldlRecOn (motive := InStep t) moves _ h fun _ hc move _ => hc.step move

end InStep

/-! ### How ticks and stops come to their end -/

namespace Candidate

/-- How many steps the loop takes in these moves. -/
def strides (moves : List Move) : Nat :=
  moves.countP fun
    | .step .. => true
    | .wake | .quit | .work .. => false

/-- The steps of a run are counted one move after another. -/
theorem strides_cons (move : Move) (moves : List Move) :
    strides (move :: moves) = strides [move] + strides moves := by
  rw [strides, strides, strides, ← List.countP_append, List.singleton_append]

/-- The loop is neither woken nor told to stop. -/
def Quiet (moves : List Move) : Prop := ∀ move ∈ moves, move ≠ .wake ∧ move ≠ .quit

end Candidate

/-- What has been exchanged since the loop was told to stop: the lease in hand was released
    by a node on standby, and nothing was asked for where there was none. -/
def Relinquishes (held : Option Lease) (before after : List Exchange) : Prop :=
  match held with
  | none => after = before
  | some lease => ∃ answer, after = ⟨.release lease, answer, false⟩ :: before

/-- After a stop that came when `held` was in hand and `before` had been exchanged: the loop
    has `left` steps to go. -/
inductive Exits (before : List Exchange) :
    (held : Option Lease) → (left : Nat) → Candidate → Prop where
  | leaving (lease : Lease) (n : Node) :
    Exits before (some lease) 2 ⟨.leaving lease, n, before⟩
  /-- The node has stepped down. -/
  | releasing (lease : Lease) {n : Node} (hn : n.active = false) :
    Exits before (some lease) 1 ⟨.releasing lease, n, before⟩
  /-- The lease was released. -/
  | released {lease : Lease} (answer : Except Fault Unit) {n : Node} (hn : n.active = false) :
    Exits before (some lease) 0 ⟨.stopped, n, ⟨.release lease, answer, false⟩ :: before⟩
  /-- There was nothing to release. -/
  | idle {n : Node} (hn : n.active = false) : Exits before none 0 ⟨.stopped, n, before⟩

namespace Exits

variable {before : List Exchange} {held : Option Lease} {left : Nat} {c : Candidate}

/-- Nothing keeps the loop from its end, and every step of its own brings it closer. -/
theorem step (h : Exits before held left c) (move : Candidate.Move) :
    Exits before held (left - Candidate.strides [move]) (c.step s t move) := by
  cases move with
  | wake | quit =>
    -- A loop that does not rest minds neither.
    cases h with
    | leaving lease n => exact .leaving lease n
    | releasing lease hn => exact .releasing lease hn
    | released answer hn => exact .released answer hn
    | idle hn => exact .idle hn
  | work replies chore =>
    -- Other work leaves a node on standby there.
    have hactive := Node.active_chore_act { s with replies } c.node chore
    cases h with
    | leaving lease n => exact .leaving lease _
    | releasing lease hn => exact .releasing lease (hactive.trans hn)
    | released answer hn => exact .released answer (hactive.trans hn)
    | idle hn => exact .idle (hactive.trans hn)
  -- The step of the loop at each of the stages.
  | step replies answer =>
    cases h with
    | leaving lease n => exact .releasing lease (Node.active_lead _ _ _)
    | released answer hn => exact .released answer hn
    | idle hn => exact .idle hn
    | @releasing lease n hn =>
      -- The record says whether the node was leading, and it was not.
      have hreleased (a : Except Fault Unit) {m : Node} (hm : m.active = n.active) :
          Exits before (some lease) 0 ⟨.stopped, m, ⟨.release lease, a, n.active⟩ :: before⟩ := by
        rw [hn] at hm ⊢
        exact .released a hm
      simp only [Candidate.step, Loop.step, Candidate.recorder]
      cases answer (.release lease) with
      | ok _ | error fault => exact hreleased _ rfl

/-- The more steps it takes, the less is left, by induction on the moves. -/
theorem run (h : Exits before held left c) (moves : List Candidate.Move) :
    Exits before held (left - Candidate.strides moves) (c.run s t moves) := by
  induction moves generalizing left c with
  | nil => exact h
  | cons move moves ih =>
    have hrest := ih (h.step (s := s) (t := t) move)
    rw [Nat.sub_sub, ← Candidate.strides_cons] at hrest
    exact hrest

/-- A loop that rests minds the stop at once. -/
theorem of_quit (h : InStep t c) (hl : c.loop = .resting held) :
    ∃ left ≤ 2, Exits c.past held left (c.step s t .quit) := by
  have hactive := h.leads
  obtain ⟨l, n, past⟩ := c
  obtain rfl : l = .resting held := hl
  cases held with
  | none => exact ⟨0, by omega, .idle hactive⟩
  | some lease => exact ⟨2, by omega, .leaving lease n⟩

/-- A loop with nothing left to go has stopped. -/
theorem eq_stopped (h : Exits before held 0 c) : c.loop = .stopped := by
  cases h <;> rfl

/-- At its end the node is on standby, and the lease that was in hand has been released. -/
theorem relinquishes (h : Exits before held left c) (hl : c.loop = .stopped) :
    c.node.active = false ∧ Relinquishes held before c.past := by
  cases h with
  | leaving lease n => cases hl
  | releasing lease hn => cases hl
  | released answer hn => exact ⟨hn, answer, rfl⟩
  | idle hn => exact ⟨hn, rfl⟩

end Exits

/-- A tick goes on until the loop rests. -/
theorem ticks_step {c : Candidate} (h : c.loop.ticks = true) {move : Candidate.Move}
    (hquiet : move ≠ .wake ∧ move ≠ .quit) :
    (c.step s t move).loop.ticks = true ∧
      (c.step s t move).loop.rank ≤ c.loop.rank - Candidate.strides [move] := by
  cases move with
  | wake => exact absurd rfl hquiet.1
  | quit => exact absurd rfl hquiet.2
  | work replies chore => exact ⟨h, Nat.le_refl _⟩
  | step replies answer =>
    refine ⟨?_, Loop.rank_step { s with replies } t
      (Candidate.recorder answer c.node.active) c.loop c.node c.past⟩
    -- Which stage follows hangs on the answer, but never one behind the tick.
    obtain ⟨l, n, past⟩ := c
    cases l with
    | leaving lease | releasing lease | stopped => cases h
    | resting held | rising lease | falling lease => rfl
    | acquiring =>
      simp only [Candidate.step, Loop.step, Candidate.recorder]
      cases answer (.acquire scope t.holder t.leaseSeconds) with
      | error fault => rfl
      | ok granted? => cases granted? <;> rfl
    | renewing lease =>
      simp only [Candidate.step, Loop.step, Candidate.recorder]
      cases answer (.renew lease t.leaseSeconds) with
      | error fault => rfl
      | ok renewed => cases renewed <;> rfl

/-- So it goes on over a whole run, and gets closer to resting with each of its steps. -/
theorem ticks_run {c : Candidate} (h : c.loop.ticks = true) {moves : List Candidate.Move}
    (hquiet : Candidate.Quiet moves) :
    (c.run s t moves).loop.ticks = true ∧
      (c.run s t moves).loop.rank ≤ c.loop.rank - Candidate.strides moves := by
  induction moves generalizing c with
  | nil => exact ⟨h, Nat.le_refl _⟩
  | cons move moves ih =>
    obtain ⟨hticks, hrank⟩ := ticks_step (s := s) (t := t) h (hquiet move List.mem_cons_self)
    obtain ⟨hticks', hrank'⟩ := ih hticks fun m hm => hquiet m (List.mem_cons_of_mem _ hm)
    refine ⟨hticks', ?_⟩
    show ((c.step s t move).run s t moves).loop.rank ≤ _
    rw [Candidate.strides_cons]
    omega

/-- A loop that was woken rests again after two steps. -/
theorem rests_again {c : Candidate} {held : Option Lease} (h : c.loop = .resting held)
    {moves : List Candidate.Move} (hquiet : Candidate.Quiet moves)
    (hstrides : 2 ≤ Candidate.strides moves) :
    ∃ held', ((c.step s t .wake).run s t moves).loop = .resting held' := by
  -- A loop that was woken is in a tick of two steps at most.
  have hwoken : (c.step s t .wake).loop.ticks = true ∧ (c.step s t .wake).loop.rank ≤ 2 := by
    show c.loop.wake.ticks = true ∧ c.loop.wake.rank ≤ 2
    rw [h]
    cases held <;> exact ⟨rfl, Nat.le_refl 2⟩
  obtain ⟨hticks, hrank⟩ := ticks_run (s := s) (t := t) hwoken.1 hquiet
  have hzero : ((c.step s t .wake).run s t moves).loop.rank = 0 := by omega
  cases hl : ((c.step s t .wake).run s t moves).loop with
  -- No steps are left, so it is not at a stage inside the tick.
  | resting held' => exact ⟨held', rfl⟩
  | stopped =>
    rw [hl] at hticks
    cases hticks
  | _ =>
    rw [hl] at hzero
    cases hzero

/-! ### The whole run -/

/-- A node that only its leadership loop makes lead or step down does so as its lease goes,
    whatever its requests are answered and whatever else it does in between.

    When its loop rests, it leads if and only if the loop has a lease, which is the one in
    hand; no lease has been released yet.  If it is woken then, it comes to rest again; if it
    is told to stop, it comes to its end, on standby, and has released the lease that it had
    and done nothing else.  All that it ever asks for is in order. -/
theorem leads_iff_lease_in_hand {n : Node} (hn : n.active = false) (s : Node.Setup) (t : Terms)
    (moves : List Candidate.Move) :
    let c := (Candidate.start n).run s t moves
    (∀ held, c.loop = .resting held →
      c.node.active = held.isSome ∧ inHand c.past = held ∧ (∀ x ∈ c.past, x.isRelease = false) ∧
      (∀ more, Candidate.Quiet more → 2 ≤ Candidate.strides more →
        ∃ held', ((c.step s t .wake).run s t more).loop = .resting held') ∧
      ∀ more, let ended := (c.step s t .quit).run s t more
        (2 ≤ Candidate.strides more → ended.loop = .stopped) ∧
        (ended.loop = .stopped →
          ended.node.active = false ∧ Relinquishes held c.past ended.past)) ∧
    (∀ x earlier, x :: earlier <:+ c.past → x.Fits t earlier) ∧
    (c.loop = .stopped → c.node.active = false) := by
  intro c
  -- What every move keeps holds of the whole run.
  have h : InStep t c := (InStep.start hn t).run moves
  refine ⟨fun held hl => ?_, h.fits, fun hl => ?_⟩
  -- At rest the flag says whether there is a lease.
  · have hleads : c.node.active = held.isSome := by
      rw [h.leads, hl]
      cases held <;> rfl
    have howns : inHand c.past = held := by
      rw [h.owns, hl]
      rfl
    have hkeeps : ∀ x ∈ c.past, x.isRelease = false := h.keeps (by rw [hl]; rfl)
    refine ⟨hleads, howns, hkeeps, fun more => rests_again hl, fun more => ?_⟩
    -- The stop is taken up at once, with two steps to go.
    obtain ⟨left, hleft, hquit⟩ := Exits.of_quit (s := s) h hl
    have hexits := hquit.run (s := s) (t := t) more
    refine ⟨fun hstrides => ?_, hexits.relinquishes⟩
    rw [Nat.sub_eq_zero_of_le (Nat.le_trans hleft hstrides)] at hexits
    exact hexits.eq_stopped
  -- At its end the node may not lead.
  · rw [h.leads, hl]
    rfl

private def candidateSetup : Node.Setup := .plain .reliable

private def thirtySeconds : Terms := ⟨"a", 30⟩

/-- Grants every request. -/
private def granting (token : String) : (r : Lease.Request) → r.Answer
  | .acquire scope holder _ => .ok (some ⟨scope, token, holder⟩)
  | .renew _ _ => .ok true
  | .release _ => .ok ()

/-- Nothing gets through. -/
private def storeDown : (r : Lease.Request) → r.Answer
  | .acquire _ _ _ => .error (.internal "store is down")
  | .renew _ _ => .error (.internal "store is down")
  | .release _ => .error (.internal "store is down")

private def striding (answer : (r : Lease.Request) → r.Answer) : Candidate.Move :=
  .step .reliable answer

private def candidateFlow : Flow :=
  Node.timed ⟨"flow://a", Eq.refl false⟩ ⟨"1", Eq.refl false⟩ "0 0 * * *"

/-- A first lease is granted and lost again; then a second one is granted. -/
private def lostAndRegained : List Candidate.Move :=
  [.wake, striding (granting "1"), striding storeDown,
    .work .reliable (.stage (.put (.flow candidateFlow))),
    .wake, striding storeDown, .work .reliable (.stage (.enter (.flow candidateFlow))),
    striding storeDown, .wake, striding (granting "2"), striding storeDown]

/-- The node leads with the second lease.  It is told to stop and steps down; it lets go of
    that lease, though nobody hears of it. -/
theorem leads_with_second_lease :
    let c := (Candidate.start .initial).run candidateSetup thirtySeconds lostAndRegained
    let ended := (c.step candidateSetup thirtySeconds .quit).run candidateSetup thirtySeconds
      [striding storeDown, striding storeDown]
    let second : Lease := ⟨scope, "2", "a"⟩
    Node.initial.active = false ∧ c.loop = .resting (some second) ∧ c.node.active = true ∧
      inHand c.past = some second ∧ ended.loop = .stopped ∧ ended.node.active = false ∧
      ∃ answer, ended.past = ⟨.release second, answer, false⟩ :: c.past := by
  intro c ended second
  obtain ⟨hrests, -, -⟩ :=
    leads_iff_lease_in_hand (n := .initial) rfl candidateSetup thirtySeconds lostAndRegained
  have hl : c.loop = .resting (some second) := by decide +kernel
  obtain ⟨hleads, howns, -, -, hquit⟩ := hrests (some second) hl
  obtain ⟨hstops, hend⟩ := hquit [striding storeDown, striding storeDown]
  have hstopped : ended.loop = .stopped := hstops (by decide)
  obtain ⟨hidle, hreleased⟩ := hend hstopped
  exact ⟨rfl, hl, hleads, howns, hstopped, hidle, hreleased⟩

end FlowCadence.Leadership
