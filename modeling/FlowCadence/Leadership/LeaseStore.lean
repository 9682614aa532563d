import FlowCadence.Fault
import FlowCadence.KeyStore
import FlowCadence.Text.Basic
/-! # Leases in the shared key store

The lease of a scope is a key in the shared store that holds the token of the
lease.  It is taken by setting the key where it is not there, and then its life is
limited: two commands, between which others may act.  Renewing and releasing look
at the token and act on the key in one. -/

/-! ## Leases and requests -/

namespace FlowCadence

/-- A lease that was granted. -/
structure Lease where
  scope : String
  token : String
  /-- Who holds the lease. -/
  holder : String
  deriving DecidableEq, Repr

namespace Lease

/-- What a node asks of whoever grants leases. -/
inductive Request where
  | acquire (scope holder : String) (seconds : Nat)
  | renew (lease : Lease) (seconds : Nat)
  | release (lease : Lease)
  deriving DecidableEq, Repr

/-- What a request is answered with, if there is no fault: the lease unless it is
    held already, whether the lease could be renewed, or nothing. -/
abbrev Request.Granted : Request → Type
  | .acquire .. => Option Lease
  | .renew .. => Bool
  | .release _ => Unit

/-- The answer to a request. -/
abbrev Request.Answer (r : Request) : Type := Except Fault r.Granted

/-- Why a request is not even sent. -/
inductive Refusal where
  | noScope
  | noHolder
  | noTime
  deriving DecidableEq, Repr

/-- The fault that a refusal is reported as. -/
def Refusal.fault : Refusal → Fault
  | .noScope => .validation "leadership lease scope_key must not be empty"
  | .noHolder => .validation "leadership lease holder_id must not be empty"
  | .noTime => .validation "leadership lease_seconds must be greater than zero"

/-- Refuses a lease of no duration. -/
def checkSeconds (seconds : Nat) : Except Refusal Unit :=
  if seconds = 0 then .error .noTime else .ok ()

/-- Refuses requests that make no sense. -/
def Request.check : Request → Except Refusal Unit
  | .acquire scope holder seconds =>
    if Text.isBlank scope then .error .noScope
    else if Text.isBlank holder then .error .noHolder
    else checkSeconds seconds
  | .renew _ seconds => checkSeconds seconds
  | .release _ => .ok ()

end Lease

end FlowCadence

/-! ## Leases in the store -/

namespace FlowCadence.Lease

/-- The key of the lease of a scope. -/
def keyOf (root scope : String) : String := root ++ ":leader:" ++ scope

/-- Takes the key of a lease; the answer says whether it was free. -/
def take (fate : KeyStore.Command → KeyStore.Fate) (root : String) (lease : Lease)
    (k : KeyStore) : KeyStore × Except Fault Bool :=
  match KeyStore.send fate (.setAbsent (keyOf root lease.scope) lease.token) k with
  | (k, .ok reply) => (k, .ok (reply = .number 1))
  | (k, .error reason) =>
    (k, .error (.internal ("failed to acquire leadership lease: " ++ reason)))

/-- Limits the life of the key of a lease. -/
def limit (fate : KeyStore.Command → KeyStore.Fate) (root : String) (lease : Lease)
    (seconds : Nat) (k : KeyStore) : KeyStore × Except Fault Unit :=
  match KeyStore.send fate (.expire (keyOf root lease.scope) seconds) k with
  | (k, .ok _) => (k, .ok ())
  | (k, .error reason) =>
    (k, .error (.internal ("failed to set leadership lease ttl: " ++ reason)))

/-- Takes a lease and limits its life. -/
def acquire (fate : KeyStore.Command → KeyStore.Fate) (root : String) (lease : Lease)
    (seconds : Nat) (k : KeyStore) : KeyStore × Except Fault (Option Lease) :=
  match take fate root lease k with
  | (k, .error fault) => (k, .error fault)
  | (k, .ok false) => (k, .ok none)
  | (k, .ok true) =>
    match limit fate root lease seconds k with
    | (k, .ok _) => (k, .ok (some lease))
    | (k, .error fault) => (k, .error fault)

/-- Renews the life of the key of a lease that still holds the lease's token. -/
def renew (fate : KeyStore.Command → KeyStore.Fate) (root : String) (lease : Lease)
    (seconds : Nat) (k : KeyStore) : KeyStore × Except Fault Bool :=
  let key := keyOf root lease.scope
  match KeyStore.ifHolds fate key lease.token (.expire key seconds) k with
  | (k, .ok n) => (k, .ok (0 < n))
  | (k, .error reason) => (k, .error (.internal ("failed to renew leadership lease: " ++ reason)))

/-- Deletes the key of a lease that still holds the lease's token. -/
def release (fate : KeyStore.Command → KeyStore.Fate) (root : String) (lease : Lease)
    (k : KeyStore) : KeyStore × Except Fault Unit :=
  let key := keyOf root lease.scope
  match KeyStore.ifHolds fate key lease.token (.delete key) k with
  | (k, .ok _) => (k, .ok ())
  | (k, .error reason) =>
    (k, .error (.internal ("failed to release leadership lease: " ++ reason)))

/-- The token of a lease: its holder and something unique. -/
def tokenOf (holder unique : String) : String := holder ++ ":" ++ unique

/-- Serves a request from the keys under `root`; `unique` goes into the token of a
    lease that is acquired. -/
def serve (link : KeyStore.Link) (root unique : String) (r : Request) (k : KeyStore) :
    KeyStore × r.Answer :=
  match r.check, link with
  | .error refusal, _ => (k, .error refusal.fault)
  | .ok _, .down reason => (k, .error (KeyStore.unreachable reason))
  | .ok _, .up fate =>
    match r with
    | .acquire scope holder seconds =>
      acquire fate root ⟨scope, tokenOf holder unique, holder⟩ seconds k
    | .renew lease seconds => renew fate root lease seconds k
    | .release lease => release fate root lease k

/-! The two commands of an acquisition, for when others act in between. -/

/-- The first half of an acquisition.  The answer is the lease whose key was taken. -/
def attempt (link : KeyStore.Link) (root unique scope holder : String) (seconds : Nat)
    (k : KeyStore) : KeyStore × Except Fault (Option Lease) :=
  match (Request.acquire scope holder seconds).check, link with
  | .error refusal, _ => (k, .error refusal.fault)
  | .ok _, .down reason => (k, .error (KeyStore.unreachable reason))
  | .ok _, .up fate =>
    let lease : Lease := ⟨scope, tokenOf holder unique, holder⟩
    match take fate root lease k with
    | (k, .ok taken) => (k, .ok (if taken then some lease else none))
    | (k, .error fault) => (k, .error fault)

/-- The second half of an acquisition.  A lease whose life could not be limited is not
    granted. -/
def confirm (link : KeyStore.Link) (root : String) (lease : Lease) (seconds : Nat)
    (k : KeyStore) : KeyStore × Except Fault (Option Lease) :=
  match limit link.fate root lease seconds k with
  | (k, .ok _) => (k, .ok (some lease))
  | (k, .error fault) => (k, .error fault)

/-- The two halves make up an acquisition. -/
theorem serve_acquire (link : KeyStore.Link) (root unique scope holder : String) (seconds : Nat)
    (k : KeyStore) :
    serve link root unique (.acquire scope holder seconds) k =
      match attempt link root unique scope holder seconds k with
      | (k, .ok (some lease)) => confirm link root lease seconds k
      | (k, .ok none) => (k, .ok none)
      | (k, .error fault) => (k, .error fault) := by
  unfold serve attempt
  cases hc : (Request.acquire scope holder seconds).check with
  | error refusal => rfl
  | ok _ =>
    cases link with
    | down reason => rfl
    | up fate =>
      dsimp only [acquire]
      cases take fate root ⟨scope, tokenOf holder unique, holder⟩ k with
      | mk k answer =>
        cases answer with
        | error fault => rfl
        | ok taken => cases taken <;> rfl

/-! ### The text under a key -/

/-- Whatever becomes of taking a key, texts stay, and the key was free if it was taken. -/
theorem take_spec (fate : KeyStore.Command → KeyStore.Fate) (root : String) (lease : Lease)
    (k : KeyStore) :
    (∀ key t, k.get? key = some t → (take fate root lease k).1.get? key = some t) ∧
      ((take fate root lease k).2 = .ok true → k.get? (keyOf root lease.scope) = none ∧
        (take fate root lease k).1.get? (keyOf root lease.scope) = some lease.token) := by
  obtain ⟨hkept, hset⟩ := KeyStore.send_setAbsent fate (keyOf root lease.scope) lease.token k
  rw [take]
  cases hs : KeyStore.send fate (.setAbsent (keyOf root lease.scope) lease.token) k with
  | mk k' answer =>
    rw [hs] at hkept hset
    cases answer with
    | error reason => exact ⟨hkept, nofun⟩
    | ok reply =>
      refine ⟨hkept, fun htaken => hset ?_⟩
      have hone : reply = .number 1 := of_decide_eq_true (Except.ok.inj htaken)
      rw [hone]

/-- The same of the first half of an acquisition. -/
theorem attempt_spec (link : KeyStore.Link) (root unique scope holder : String) (seconds : Nat)
    (k : KeyStore) :
    (∀ key t, k.get? key = some t →
      (attempt link root unique scope holder seconds k).1.get? key = some t) ∧
      ∀ lease, (attempt link root unique scope holder seconds k).2 = .ok (some lease) →
        k.get? (keyOf root scope) = none ∧
          (attempt link root unique scope holder seconds k).1.get? (keyOf root scope) =
            some lease.token := by
  unfold attempt
  split
  · exact ⟨fun _ _ h => h, nofun⟩
  · exact ⟨fun _ _ h => h, nofun⟩
  · next _ fate _ =>
    obtain ⟨hkept, htaken⟩ := take_spec fate root ⟨scope, tokenOf holder unique, holder⟩ k
    dsimp only
    cases ht : take fate root ⟨scope, tokenOf holder unique, holder⟩ k with
    | mk k' answer =>
      rw [ht] at hkept htaken
      cases answer with
      | error fault => exact ⟨hkept, nofun⟩
      | ok taken =>
        refine ⟨hkept, fun lease hgranted => ?_⟩
        cases taken with
        | false => cases hgranted
        | true =>
          cases hgranted
          exact htaken rfl

/-- The second half of an acquisition touches no text.  It grants the lease whose key was
    taken, or none. -/
theorem confirm_spec (link : KeyStore.Link) (root : String) (lease : Lease) (seconds : Nat)
    (k : KeyStore) :
    (confirm link root lease seconds k).1.texts = k.texts ∧
      ((confirm link root lease seconds k).2 = .ok (some lease) ∨
        ∃ fault, (confirm link root lease seconds k).2 = .error fault) := by
  let c : KeyStore.Command := .expire (keyOf root lease.scope) seconds
  have hsend := KeyStore.texts_send (c := c) rfl link.fate k
  rw [confirm, limit]
  cases hs : KeyStore.send link.fate c k with
  | mk k' answer =>
    rw [hs] at hsend
    cases answer with
    | ok reply => exact ⟨hsend, .inl rfl⟩
    | error reason => exact ⟨hsend, .inr ⟨_, rfl⟩⟩

/-- Renewing a lease leaves the texts of the store as they are. -/
theorem texts_renew (fate : KeyStore.Command → KeyStore.Fate) (root : String) (lease : Lease)
    (seconds : Nat) (k : KeyStore) : (renew fate root lease seconds k).1.texts = k.texts := by
  let c : KeyStore.Command := .expire (keyOf root lease.scope) seconds
  have hholds := KeyStore.texts_ifHolds (a := c) rfl fate (keyOf root lease.scope) lease.token k
  rw [renew]
  cases hs : KeyStore.ifHolds fate (keyOf root lease.scope) lease.token c k with
  | mk k' answer =>
    rw [hs] at hholds
    cases answer <;> exact hholds

/-- Renewing sets and erases no text, whether it gets through or not. -/
theorem texts_serve_renew (link : KeyStore.Link) (root unique : String) (lease : Lease)
    (seconds : Nat) (k : KeyStore) :
    (serve link root unique (.renew lease seconds) k).1.texts = k.texts := by
  unfold serve
  split
  · rfl
  · rfl
  · exact texts_renew _ _ _ _ _

/-! ### The life of a key -/

/-- Different scopes have different keys. -/
theorem keyOf_inj {root scope scope' : String} :
    keyOf root scope = keyOf root scope' ↔ scope = scope' := by
  rw [keyOf, keyOf, String.append_right_inj]

/-- An acquisition takes the key: the request makes sense, the key is free, and the command
    that sets it is carried out. -/
def Takes (link : KeyStore.Link) (root unique scope holder : String) (seconds : Nat)
    (k : KeyStore) : Prop :=
  (Request.acquire scope holder seconds).check.isOk = true ∧ k.get? (keyOf root scope) = none ∧
    (link.fate (.setAbsent (keyOf root scope) (tokenOf holder unique))).carries = true

instance (link : KeyStore.Link) (root unique scope holder : String) (seconds : Nat)
    (k : KeyStore) : Decidable (Takes link root unique scope holder seconds k) :=
  inferInstanceAs (Decidable (_ ∧ _ ∧ _))

section Halves

variable {link : KeyStore.Link} {root unique scope holder : String} {seconds : Nat} {k : KeyStore}

/-- A key that is taken gets the token of the lease, and everything else stays as it is. -/
theorem entry_attempt (link : KeyStore.Link) (root unique scope holder : String) (seconds : Nat)
    (k : KeyStore) (key : String) :
    (attempt link root unique scope holder seconds k).1.entry key =
      if Takes link root unique scope holder seconds k ∧ keyOf root scope = key
      then (some (tokenOf holder unique), k.lives[key]?) else k.entry key := by
  unfold attempt
  cases hcheck : (Request.acquire scope holder seconds).check with
  | error refusal => simp [Takes, hcheck, Except.isOk, Except.toBool]
  | ok _ =>
    cases link with
    | down reason => simp [Takes, KeyStore.Link.fate, KeyStore.Fate.carries]
    | up fate =>
      have htakes : Takes (.up fate) root unique scope holder seconds k ↔
          (fate (.setAbsent (keyOf root scope) (tokenOf holder unique))).carries = true ∧
            k.get? (keyOf root scope) = none := by
        simp [Takes, hcheck, Except.isOk, Except.toBool, KeyStore.Link.fate, and_comm]
      simp only [take, htakes, and_assoc]
      rw [← KeyStore.entry_setAbsent]
      cases KeyStore.send fate (.setAbsent (keyOf root scope) (tokenOf holder unique)) k with
      | mk k' answer => cases answer <;> rfl

/-- The lease whose key was taken is held if the store has answered. -/
theorem attempt_eq_some_iff {lease : Lease} :
    (attempt link root unique scope holder seconds k).2 = .ok (some lease) ↔
      Takes link root unique scope holder seconds k ∧
        link.fate (.setAbsent (keyOf root scope) (tokenOf holder unique)) = .answered ∧
        lease = ⟨scope, tokenOf holder unique, holder⟩ := by
  unfold attempt
  cases hcheck : (Request.acquire scope holder seconds).check with
  | error refusal => simp [Takes, hcheck, Except.isOk, Except.toBool]
  | ok _ =>
    cases link with
    | down reason => simp [KeyStore.Link.fate]
    | up fate =>
      simp only [Takes, hcheck, Except.isOk, Except.toBool, take, KeyStore.send,
        KeyStore.Link.fate]
      cases hfate : fate (.setAbsent (keyOf root scope) (tokenOf holder unique)) with
      | refused reason | unanswered reason => simp
      | answered =>
        cases hkey : k.get? (keyOf root scope) with
        | some t => simp [KeyStore.carryOut, KeyStore.contains_texts, hkey]
        | none =>
          simp [KeyStore.carryOut, KeyStore.contains_texts, hkey, KeyStore.Fate.carries, eq_comm]

/-- The life of a key that is there is limited if the command is carried out. -/
theorem entry_confirm (link : KeyStore.Link) (root : String) (lease : Lease) (seconds : Nat)
    (k : KeyStore) (key : String) :
    (confirm link root lease seconds k).1.entry key =
      if (link.fate (.expire (keyOf root lease.scope) seconds)).carries = true ∧
        k.get? (keyOf root lease.scope) ≠ none ∧ keyOf root lease.scope = key
      then (k.get? key, some seconds) else k.entry key := by
  rw [← KeyStore.entry_expire, confirm, limit]
  cases KeyStore.send link.fate (.expire (keyOf root lease.scope) seconds) k with
  | mk k' answer => cases answer <;> rfl

/-- A lease is granted if the store has answered. -/
theorem confirm_eq_some_iff {lease granted : Lease} :
    (confirm link root lease seconds k).2 = .ok (some granted) ↔
      link.fate (.expire (keyOf root lease.scope) seconds) = .answered ∧ granted = lease := by
  rw [confirm, limit, KeyStore.send]
  cases link.fate (.expire (keyOf root lease.scope) seconds) with
  | answered => simp [eq_comm]
  | refused reason | unanswered reason => simp

end Halves

/-! ### Renewing and releasing -/

/-- The store tells a caller that the key of its lease holds the token of the lease. -/
def Found (link : KeyStore.Link) (root : String) (lease : Lease) (k : KeyStore) : Prop :=
  link.fate (.get (keyOf root lease.scope)) = .answered ∧
    k.get? (keyOf root lease.scope) = some lease.token

instance (link : KeyStore.Link) (root : String) (lease : Lease) (k : KeyStore) :
    Decidable (Found link root lease k) :=
  inferInstanceAs (Decidable (_ ∧ _))

section Holder

variable {link : KeyStore.Link} {root unique : String} {lease : Lease} {seconds : Nat}
  {k : KeyStore}

/-- What stands behind the condition is carried out if the key is found to hold the token. -/
theorem entry_ifHolds (fate : KeyStore.Command → KeyStore.Fate) (root : String) (lease : Lease)
    (act : KeyStore.Command) (k : KeyStore) (key : String) :
    (KeyStore.ifHolds fate (keyOf root lease.scope) lease.token act k).1.entry key =
      if Found (.up fate) root lease k then (KeyStore.send fate act k).1.entry key
      else k.entry key :=
  KeyStore.entry_ifHolds fate _ _ act k key

/-- A renewal is turned down only for having no time. -/
theorem check_renew (lease : Lease) (seconds : Nat) :
    (Request.renew lease seconds).check = if seconds = 0 then .error .noTime else .ok () := rfl

/-- Renewing limits the life of a key that is found to hold the token of the lease, and does
    nothing else. -/
theorem entry_serve_renew (link : KeyStore.Link) (root unique : String) (lease : Lease)
    (seconds : Nat) (k : KeyStore) (key : String) :
    (serve link root unique (.renew lease seconds) k).1.entry key =
      if 0 < seconds ∧ Found link root lease k ∧
        (link.fate (.expire (keyOf root lease.scope) seconds)).carries = true ∧
        keyOf root lease.scope = key
      then (k.get? key, some seconds) else k.entry key := by
  unfold serve
  rw [check_renew]
  by_cases hseconds : seconds = 0
  · simp [hseconds]
  · rw [if_neg hseconds]
    cases link with
    | down reason => simp [Found, KeyStore.Link.fate]
    | up fate =>
      have hrenew : (renew fate root lease seconds k).1 =
          (KeyStore.ifHolds fate (keyOf root lease.scope) lease.token
            (.expire (keyOf root lease.scope) seconds) k).1 := by
        rw [renew]
        cases KeyStore.ifHolds fate (keyOf root lease.scope) lease.token
          (.expire (keyOf root lease.scope) seconds) k with
        | mk k' answer => cases answer <;> rfl
      simp only [hrenew, entry_ifHolds, KeyStore.entry_expire, Nat.pos_of_ne_zero hseconds]
      by_cases hfound : Found (.up fate) root lease k
      · simp [hfound, hfound.2, KeyStore.Link.fate]
      · simp [hfound]

/-- Releasing deletes a key that is found to hold the token of the lease, and does nothing
    else. -/
theorem entry_serve_release (link : KeyStore.Link) (root unique : String) (lease : Lease)
    (k : KeyStore) (key : String) :
    (serve link root unique (.release lease) k).1.entry key =
      if Found link root lease k ∧
        (link.fate (.delete (keyOf root lease.scope))).carries = true ∧ keyOf root lease.scope = key
      then (none, none) else k.entry key := by
  unfold serve
  cases link with
  | down reason => simp [Found, KeyStore.Link.fate, Request.check]
  | up fate =>
    have hrelease : (release fate root lease k).1 =
        (KeyStore.ifHolds fate (keyOf root lease.scope) lease.token
          (.delete (keyOf root lease.scope)) k).1 := by
      rw [release]
      cases KeyStore.ifHolds fate (keyOf root lease.scope) lease.token
        (.delete (keyOf root lease.scope)) k with
      | mk k' answer => cases answer <;> rfl
    simp only [Request.check, hrelease, entry_ifHolds, KeyStore.entry_delete]
    by_cases hfound : Found (.up fate) root lease k
    · simp [hfound, KeyStore.Link.fate]
    · simp [hfound]

/-- Behind a condition that the store has looked at, a renewal succeeds or it does not. -/
theorem serve_renew_eq_ok_iff {renewed : Bool} :
    (serve link root unique (.renew lease seconds) k).2 = .ok renewed ↔
      0 < seconds ∧ link.fate (.get (keyOf root lease.scope)) = .answered ∧
        if k.get? (keyOf root lease.scope) = some lease.token
        then link.fate (.expire (keyOf root lease.scope) seconds) = .answered ∧ renewed = true
        else renewed = false := by
  unfold serve
  rw [check_renew]
  by_cases hseconds : seconds = 0
  · simp [hseconds]
  · rw [if_neg hseconds]
    cases link with
    | down reason => simp [KeyStore.Link.fate]
    | up fate =>
      -- To have asked for the text makes no difference to it.
      have hsame : KeyStore.get?
          { k with sent := k.sent ++ [.get (keyOf root lease.scope)] } (keyOf root lease.scope) =
            k.get? (keyOf root lease.scope) := rfl
      simp only [renew, KeyStore.ifHolds, KeyStore.send, KeyStore.Link.fate,
        Nat.pos_of_ne_zero hseconds, true_and]
      cases hget : fate (.get (keyOf root lease.scope)) with
      | refused reason | unanswered reason => simp
      | answered =>
        by_cases hheld : k.get? (keyOf root lease.scope) = some lease.token
        · cases hexpire : fate (.expire (keyOf root lease.scope) seconds) with
          | refused reason | unanswered reason =>
            simp [KeyStore.carryOut, hsame, hheld]
          | answered =>
            cases renewed <;> simp [KeyStore.carryOut, KeyStore.contains_texts, hsame, hheld]
        · cases renewed <;> simp [KeyStore.carryOut, hsame, hheld]

end Holder

end FlowCadence.Lease
