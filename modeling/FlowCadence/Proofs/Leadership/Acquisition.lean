import FlowCadence.Leadership.LeaseStore
/-! # Acquisitions that come to no lease

An acquisition takes the key of a lease and then limits its life.  It comes to a lease if both
commands are answered.  If it does not take the key it changes nothing.  But if it takes the
key and one of the two commands is not answered, the key holds the token of a lease that
nobody was granted.

## Key results

* `Lease.acquires_iff`: when an acquisition comes to a lease
* `Lease.unchanged_iff`: when one that does not leaves the key as it was -/

namespace FlowCadence

namespace Lease

variable {link : KeyStore.Link} {root unique scope holder : String} {seconds : Nat} {k : KeyStore}

/-- An acquisition takes the key and comes to no lease all the same: one of its two commands
    was not answered. -/
def Forsakes (link : KeyStore.Link) (root unique scope holder : String) (seconds : Nat)
    (k : KeyStore) : Prop :=
  Takes link root unique scope holder seconds k ∧
    ¬ (link.fate (.setAbsent (keyOf root scope) (tokenOf holder unique)) = .answered ∧
      link.fate (.expire (keyOf root scope) seconds) = .answered)

instance (link : KeyStore.Link) (root unique scope holder : String) (seconds : Nat)
    (k : KeyStore) : Decidable (Forsakes link root unique scope holder seconds k) :=
  inferInstanceAs (Decidable (_ ∧ ¬ (_ ∧ _)))

/-! ### One acquisition -/

/-- A lease is acquired if the key is taken and both commands are answered. -/
theorem acquires_iff :
    (∃ lease, (serve link root unique (.acquire scope holder seconds) k).2 = .ok (some lease)) ↔
      Takes link root unique scope holder seconds k ∧
        link.fate (.setAbsent (keyOf root scope) (tokenOf holder unique)) = .answered ∧
        link.fate (.expire (keyOf root scope) seconds) = .answered := by
  rw [serve_acquire]
  cases ha : attempt link root unique scope holder seconds k with
  | mk k' answer =>
    have hanswer : (attempt link root unique scope holder seconds k).2 = answer := by rw [ha]
    match answer with
    -- The key was taken and the store said so; what is left is to limit its life.
    | .ok (some lease) =>
      obtain ⟨htakes, hset, rfl⟩ := attempt_eq_some_iff.1 hanswer
      simp [htakes, hset, confirm_eq_some_iff]
    | .ok none | .error fault =>
      -- Had the key been taken and the store answered, there would be a lease to confirm.
      have hno : ¬ (Takes link root unique scope holder seconds k ∧
          link.fate (.setAbsent (keyOf root scope) (tokenOf holder unique)) = .answered) := by
        intro h
        rw [attempt_eq_some_iff.2 ⟨h.1, h.2, rfl⟩] at hanswer
        cases hanswer
      refine iff_of_false ?_ fun h => hno ⟨h.1, h.2.1⟩
      simp

/-- The second half of an acquisition touches no text. -/
theorem texts_serve_acquire :
    (serve link root unique (.acquire scope holder seconds) k).1.texts =
      (attempt link root unique scope holder seconds k).1.texts := by
  rw [serve_acquire]
  cases attempt link root unique scope holder seconds k with
  | mk k' answer =>
    match answer with
    -- A lease was in sight, and its life is limited, which is no text.
    | .ok (some lease) => exact (confirm_spec link root lease seconds k').1
    | .ok none | .error fault => rfl

/-- A key that is taken holds the token of the lease from then on. -/
theorem get?_serve_acquire_of_takes (h : Takes link root unique scope holder seconds k) :
    (serve link root unique (.acquire scope holder seconds) k).1.get? (keyOf root scope) =
      some (tokenOf holder unique) := by
  have hset := entry_attempt link root unique scope holder seconds k (keyOf root scope)
  rw [if_pos ⟨h, rfl⟩] at hset
  rw [KeyStore.get?, texts_serve_acquire]
  exact congrArg Prod.fst hset

/-- An acquisition that does not take the key ends after its first half, which has changed
    nothing. -/
theorem entry_serve_acquire_of_not_takes (h : ¬ Takes link root unique scope holder seconds k)
    (key : String) :
    (serve link root unique (.acquire scope holder seconds) k).1.entry key = k.entry key := by
  have hsame := entry_attempt link root unique scope holder seconds k key
  rw [if_neg fun ht => h ht.1] at hsame
  have hno (lease : Lease) :
      (attempt link root unique scope holder seconds k).2 ≠ .ok (some lease) :=
    -- Without the key there is no lease to confirm.
    fun ha => h (attempt_eq_some_iff.1 ha).1
  rw [serve_acquire]
  cases ha : attempt link root unique scope holder seconds k with
  | mk k' answer =>
    rw [ha] at hsame hno
    match answer with
    | .ok (some lease) => exact absurd rfl (hno lease)
    | .ok none | .error fault => exact hsame

/-- That an acquisition leaves the key and its life as they were, if it comes to no lease, is
    true unless it forsakes the key. -/
theorem unchanged_iff :
    ((∀ lease,
        (serve link root unique (.acquire scope holder seconds) k).2 ≠ .ok (some lease)) →
      (serve link root unique (.acquire scope holder seconds) k).1.entry (keyOf root scope) =
        k.entry (keyOf root scope)) ↔
      ¬ Forsakes link root unique scope holder seconds k := by
  constructor
  -- If nothing changed, the key was not forsaken.
  · intro hunchanged hforsakes
    obtain ⟨htakes, hunanswered⟩ := hforsakes
    have hno (lease : Lease) :
        (serve link root unique (.acquire scope holder seconds) k).2 ≠ .ok (some lease) :=
      fun hlease => hunanswered (acquires_iff.1 ⟨lease, hlease⟩).2
    -- The key was free, and now it holds the token.
    have hkept := congrArg Prod.fst (hunchanged hno)
    simp only [KeyStore.entry, get?_serve_acquire_of_takes htakes, htakes.2.1] at hkept
    cases hkept
  -- If the key was not forsaken, it was not taken or a lease was granted.
  · intro hkept hno
    by_cases htakes : Takes link root unique scope holder seconds k
    · refine absurd ⟨htakes, fun hanswered => ?_⟩ hkept
      obtain ⟨lease, hlease⟩ := acquires_iff.2 ⟨htakes, hanswered⟩
      exact hno lease hlease
    · exact entry_serve_acquire_of_not_takes htakes _

end Lease

end FlowCadence
