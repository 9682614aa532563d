import FlowCadence.Leadership.Bidding
import FlowCadence.Proofs.Leadership.Abandonment
/-! # Stale leases are harmless

A caller may come back with a lease that is long over.  Renewing and releasing look at the token
under the key before they do anything, so they do nothing for such a caller, whoever has the key
by now.  A token that is there is not overwritten either: it stays until its key is gone or the
lease of that very token is released.

## Key results

* `Lease.renewable_iff`: a lease can be renewed if its token is under the key
* `Tenure.get?_step`, `Tenure.get?_run`: what takes a token away from under a key
* `Tenure.distinct_step`: callers hold different leases
* `Tenure.stale_lease_harmless`: what comes of a stale lease after any moves -/

namespace FlowCadence

namespace Lease

variable {root : String} {lease : Lease} {k : KeyStore}

/-- The lease can be renewed, over some link and for some time. -/
def Renewable (root : String) (lease : Lease) (k : KeyStore) : Prop :=
  ∃ link unique seconds, (serve link root unique (.renew lease seconds) k).2 = .ok true

/-- A lease that was renewed has its token under the key. -/
theorem get?_of_renewed {link : KeyStore.Link} {unique : String} {seconds : Nat}
    (h : (serve link root unique (.renew lease seconds) k).2 = .ok true) :
    k.get? (keyOf root lease.scope) = some lease.token := by
  obtain ⟨-, -, hfound⟩ := serve_renew_eq_ok_iff.1 h
  split at hfound
  · assumption
  · cases hfound

/-- A lease can be renewed as long as its token is under the key. -/
theorem renewable_iff :
    Renewable root lease k ↔ k.get? (keyOf root lease.scope) = some lease.token := by
  constructor
  · rintro ⟨link, unique, seconds, hrenewed⟩
    exact get?_of_renewed hrenewed
  -- Over a link that answers everything the lease is renewed.
  · intro hheld
    refine ⟨.up fun _ => .answered, "", 1, serve_renew_eq_ok_iff.2 ⟨Nat.one_pos, rfl, ?_⟩⟩
    rw [if_pos hheld]
    exact ⟨rfl, rfl⟩

section Stale

variable (h : k.get? (keyOf root lease.scope) ≠ some lease.token) (link : KeyStore.Link)
  (unique : String)

include h

/-- Renewing a stale lease changes no key. -/
theorem entry_renew_of_stale (seconds : Nat) (key : String) :
    (serve link root unique (.renew lease seconds) k).1.entry key = k.entry key := by
  rw [entry_serve_renew, if_neg fun hfound => h hfound.2.1.2]

/-- Releasing a stale lease changes no key. -/
theorem entry_release_of_stale (key : String) :
    (serve link root unique (.release lease) k).1.entry key = k.entry key := by
  rw [entry_serve_release, if_neg fun hfound => h hfound.1.2]

/-- If there is an answer at all, it is that the lease could not be renewed. -/
theorem renew_of_stale_eq_ok_iff (seconds : Nat) (renewed : Bool) :
    (serve link root unique (.renew lease seconds) k).2 = .ok renewed ↔
      0 < seconds ∧ link.fate (.get (keyOf root lease.scope)) = .answered ∧ renewed = false := by
  rw [serve_renew_eq_ok_iff, if_neg h]

end Stale

/-- A token that is under a key is not overwritten by an acquisition. -/
theorem get?_acquire {key token : String} (h : k.get? key = some token) (link : KeyStore.Link)
    (unique scope holder : String) (seconds : Nat) :
    (serve link root unique (.acquire scope holder seconds) k).1.get? key = some token := by
  -- An acquisition that takes a key finds it free.
  rw [KeyStore.get?, texts_serve_acquire]
  exact (attempt_spec link root unique scope holder seconds k).1 key token h

end Lease

namespace Leadership.Tenure

variable {root : String} {b : Bidding}

/-! ### The token under a key -/

/-- The move may take the token away from under the key: the key is gone, or the lease of that
    token is released. -/
def Move.MayEnd (root key token : String) : Move → Prop
  | .bid (.attempt ..) | .bid (.confirm ..) | .renew .. => False
  | .bid (.lapse lapsed) => lapsed = key
  | .release _ lease => Lease.keyOf root lease.scope = key ∧ lease.token = token
  | .vanish gone => gone = key

instance (root key token : String) : DecidablePred (Move.MayEnd root key token)
  | .bid (.attempt ..) | .bid (.confirm ..) | .renew .. => inferInstanceAs (Decidable False)
  | .bid (.lapse lapsed) => inferInstanceAs (Decidable (lapsed = key))
  | .release _ lease =>
    inferInstanceAs (Decidable (Lease.keyOf root lease.scope = key ∧ lease.token = token))
  | .vanish gone => inferInstanceAs (Decidable (gone = key))

/-- Any other move leaves it where it is. -/
theorem get?_step {key token : String} (h : b.store.get? key = some token) {m : Move}
    (hm : ¬ m.MayEnd root key token) : (step root b m).store.get? key = some token := by
  -- A key that goes is another one.
  have herase {gone : String} (hne : gone ≠ key) : (b.store.erase gone).get? key = some token := by
    have hentry := b.store.entry_erase gone key
    rw [if_neg hne] at hentry
    exact (congrArg Prod.fst hentry).trans h
  cases m with
  -- An acquisition, in two parts, or a key that lapses.
  | bid m =>
    cases m with
    | attempt link unique scope holder seconds =>
      have hentry := (Bidding.attempt_cases root b link unique scope holder seconds).2.1 key
      rw [if_neg] at hentry
      · exact (congrArg Prod.fst hentry).trans h
      · -- A key is only taken if it is free.
        rintro ⟨⟨-, hfree, -⟩, rfl⟩
        rw [h] at hfree
        cases hfree
    | confirm link place =>
      cases hplace : b.underway[place]? with
      | none => rwa [step, Bidding.confirm_of_none hplace]
      | some e =>
        obtain ⟨lease, seconds⟩ := e
        -- Whether the life of a key is limited or not, its text stays.
        have htext := congrArg Prod.fst ((Bidding.confirm_cases root hplace link).2.1 key)
        rw [apply_ite Prod.fst] at htext
        exact (htext.trans (ite_self _)).trans h
    | lapse lapsed =>
      simp only [step, Bidding.step]
      split
      · exact herase hm
      · exact h
  -- A renewal writes no text.
  | renew link lease seconds =>
    have htexts := Lease.texts_serve_renew link root "" lease seconds b.store
    rw [step, KeyStore.get?, htexts]
    exact h
  -- A release deletes the key only if the token under it is that of the lease.
  | release link lease =>
    have hentry := Lease.entry_serve_release link root "" lease b.store key
    rw [if_neg] at hentry
    · exact (congrArg Prod.fst hentry).trans h
    · rintro ⟨⟨-, hfound⟩, -, rfl⟩
      rw [h] at hfound
      exact hm ⟨rfl, (Option.some.inj hfound).symm⟩
  | vanish gone => exact herase hm

/-- The token stays through any number of such moves. -/
theorem get?_run {key token : String} (h : b.store.get? key = some token) {moves : List Move}
    (hmoves : ∀ m ∈ moves, ¬ m.MayEnd root key token) :
    (run root b moves).store.get? key = some token := by
  induction moves generalizing b with
  | nil => exact h
  | cons m moves ih =>
    exact ih (get?_step h (hmoves m List.mem_cons_self)) fun m hm =>
      hmoves m (List.mem_cons_of_mem _ hm)

/-! ### The leases that callers hold -/

/-- The leases that callers hold and those that they are going to ask for are different. -/
def Distinct (b : Bidding) (moves : List Move) : Prop :=
  Bidding.Distinct b (moves.filterMap Move.bid?)

/-- Only an acquisition brings a lease. -/
theorem distinct_step {m : Move} {moves : List Move} (h : Distinct b (m :: moves)) :
    Distinct (step root b m) moves := by
  cases m with
  | bid m => exact Bidding.Distinct.step h
  -- Renewals and releases ask for no lease.
  | renew _ _ _ | release _ _ | vanish _ => exact h

/-- In the end all leases that are held are different. -/
theorem distinct_run {moves : List Move} (h : Distinct b moves) :
    Distinct (run root b moves) [] := by
  induction moves generalizing b with
  | nil => exact h
  | cons m moves ih => exact ih (distinct_step h)

/-- Of different leases of one scope, at most one can be renewed. -/
theorem eq_of_renewable (h : Distinct b []) {i j : Nat} {lease other : Lease}
    (hi : b.held[i]? = some lease) (hj : b.held[j]? = some other)
    (hscope : lease.scope = other.scope) (hlease : lease.Renewable root b.store)
    (hother : other.Renewable root b.store) : i = j := by
  have hstored := Lease.renewable_iff.1 hlease
  -- Both tokens are what the store holds under the one key.
  have htoken : lease.token = other.token := by
    rw [hscope, Lease.renewable_iff.1 hother] at hstored
    exact (Option.some.inj hstored).symm
  -- The leases are different, so the place in the list is one.
  have hnodup : (b.held.map fun lease => (lease.scope, lease.token)).Nodup := by
    simpa [Distinct, Bidding.Distinct] using h
  have hlt : i < b.held.length := (List.getElem?_eq_some_iff.1 hi).1
  refine (List.getElem?_inj (by rwa [List.length_map]) hnodup).1 ?_
  rw [List.getElem?_map, List.getElem?_map, hi, hj]
  simp [hscope, htoken]

/-- Whatever was done so far, by callers that ask for leases with different tokens:
    * renewing and releasing a stale lease change neither the text nor the life of any key, and
      the answer, if there is one, is that the lease could not be renewed; there is one if the
      time asked for is not zero and the store says what it holds;
    * a lease that is renewed has its token under the key;
    * a token that is under a key is not overwritten by an acquisition, and in whatever is done
      next it stays until the key is gone or the lease of that token is released;
    * and of the leases of one scope that callers hold, at most one can be renewed. -/
theorem stale_lease_harmless (root : String) (store : KeyStore) (moves : List Move)
    (hdistinct : ((moves.filterMap Move.bid?).filterMap Bidding.Move.asks).Nodup) :
    let b := run root (.start store) moves
    (∀ lease : Lease, b.store.get? (Lease.keyOf root lease.scope) ≠ some lease.token →
      ∀ (link : KeyStore.Link) (unique : String),
        (∀ key, (Lease.serve link root unique (.release lease) b.store).1.entry key =
          b.store.entry key) ∧
        ∀ seconds,
          (∀ key, (Lease.serve link root unique (.renew lease seconds) b.store).1.entry key =
            b.store.entry key) ∧
          ∀ renewed,
            (Lease.serve link root unique (.renew lease seconds) b.store).2 = .ok renewed ↔
              0 < seconds ∧ link.fate (.get (Lease.keyOf root lease.scope)) = .answered ∧
                renewed = false) ∧
    (∀ (lease : Lease) (link : KeyStore.Link) (unique : String) (seconds : Nat),
      (Lease.serve link root unique (.renew lease seconds) b.store).2 = .ok true →
        b.store.get? (Lease.keyOf root lease.scope) = some lease.token) ∧
    (∀ key token, b.store.get? key = some token →
      (∀ (link : KeyStore.Link) (unique scope holder : String) (seconds : Nat),
        (Lease.serve link root unique (.acquire scope holder seconds) b.store).1.get? key =
          some token) ∧
      ∀ more : List Move, (∀ m ∈ more, ¬ m.MayEnd root key token) →
        (run root b more).store.get? key = some token) ∧
    ∀ (i j : Nat) (lease other : Lease), b.held[i]? = some lease → b.held[j]? = some other →
      lease.scope = other.scope → lease.Renewable root b.store → other.Renewable root b.store →
      i = j := by
  intro b
  -- Nothing else about the moves matters for the last part.
  have hheld : Distinct b [] := distinct_run hdistinct
  -- Each part is a lemma about the store that the moves have led to.
  refine ⟨fun lease hstale link unique => ⟨?_, fun seconds => ⟨?_, ?_⟩⟩, ?_, ?_, ?_⟩
  · exact Lease.entry_release_of_stale hstale link unique
  · exact Lease.entry_renew_of_stale hstale link unique seconds
  · exact Lease.renew_of_stale_eq_ok_iff hstale link unique seconds
  · intro lease link unique seconds
    exact Lease.get?_of_renewed
  · intro key token htoken
    exact ⟨Lease.get?_acquire htoken, fun more => get?_run htoken⟩
  · intro i j lease other hi hj hscope
    exact eq_of_renewable hheld hi hj hscope

/-- Every command is answered. -/
private def faultlessLink : KeyStore.Link := .up fun _ => .answered

/-- The lease of a caller lapses, and another caller is granted the lease of that scope. -/
private def supplantingMoves : List Move :=
  [.bid (.attempt faultlessLink "1" "flows" "a" 30), .bid (.confirm faultlessLink 0),
    .vanish "tempora:leader:flows", .bid (.attempt faultlessLink "2" "flows" "b" 30),
    .bid (.confirm faultlessLink 0)]

private def lapsedLease : Lease := ⟨"flows", "a:1", "a"⟩

/-- The former holder neither renews nor releases the lease that its successor has, and when it
    runs for it again it does not get it. -/
theorem former_holder_harmless :
    let b := run "tempora" (.start .empty) supplantingMoves
    b.held.map (·.token) = ["a:1", "b:2"] ∧
      (Lease.serve faultlessLink "tempora" "" (.renew lapsedLease 60) b.store).2 = .ok false ∧
      (Lease.serve faultlessLink "tempora" "" (.renew lapsedLease 60) b.store).1.entry
        "tempora:leader:flows" = (some "b:2", some 30) ∧
      (Lease.serve faultlessLink "tempora" "" (.release lapsedLease) b.store).1.entry
        "tempora:leader:flows" = (some "b:2", some 30) ∧
      ¬ lapsedLease.Renewable "tempora" b.store ∧
      (run "tempora" b [.renew faultlessLink lapsedLease 60, .release faultlessLink lapsedLease,
        .bid (.attempt faultlessLink "3" "flows" "a" 30)]).store.get? "tempora:leader:flows" =
          some "b:2" := by
  intro b
  -- The successor has the key, with the life that it was given.
  have hentry : b.store.entry "tempora:leader:flows" = (some "b:2", some 30) := by decide +kernel
  obtain ⟨hstale, -, hkept, hone⟩ :=
    stale_lease_harmless "tempora" .empty supplantingMoves (by decide +kernel)
  obtain ⟨hrelease, hrenew⟩ := hstale lapsedLease (by decide +kernel) faultlessLink ""
  obtain ⟨hunchanged, hanswer⟩ := hrenew 60
  refine ⟨by decide +kernel, ?_, ?_, ?_, ?_, ?_⟩
  · exact (hanswer false).2 ⟨by decide, rfl, rfl⟩
  · exact (hunchanged _).trans hentry
  · exact (hrelease _).trans hentry
  -- Were the former lease renewable, it would be the successor's.
  · intro hformer
    have hsuccessor : Lease.Renewable "tempora" ⟨"flows", "b:2", "b"⟩ b.store :=
      ⟨faultlessLink, "", 60, by decide +kernel⟩
    exact absurd (hone 0 1 lapsedLease ⟨"flows", "b:2", "b"⟩ (by decide +kernel)
      (by decide +kernel) rfl
      hformer hsuccessor) (by decide)
  · exact (hkept _ _ (congrArg Prod.fst hentry)).2 _ (by decide +kernel)

end Leadership.Tenure

end FlowCadence
