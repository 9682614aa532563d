import FlowCadence.Leadership.LeaseStore
/-! # Callers that acquire leases

Any number of callers acquire leases from a store that they share.  Each of them sends two
commands, one to take the key of its lease and one to limit the key's life, and others may
act between the two.  A key whose life is limited may lapse at any time.

A caller holds a lease from the moment it has taken its key; it lets go of it if the life of
the key could not be limited.  An acquisition without a break is two moves (`step_step`).

Callers also renew leases, and they release them in the end.  Nobody tells a caller that its
lease is over.  A lease stays in its hands when its key has lapsed, when another caller has taken
the key, and even after it was released; so it may be renewed or released at any time, and by
anybody.  Keys may be gone at any moment then, whatever life they had left. -/

namespace FlowCadence.Leadership

/-- The shared store and the leases that callers hold. -/
structure Bidding where
  store : KeyStore
  /-- The leases whose keys were taken, and the seconds that they are to live. -/
  underway : List (Lease × Nat)
  granted : List Lease
  deriving DecidableEq

namespace Bidding

/-- What can happen next. -/
inductive Move where
  /-- A caller sends the first command of an acquisition over a link to the store, with
      something unique for the token of the lease. -/
  | attempt (link : KeyStore.Link) (unique scope holder : String) (seconds : Nat)
  /-- The caller at this place sends the second one. -/
  | confirm (link : KeyStore.Link) (place : Nat)
  /-- The life of a key is over. -/
  | lapse (key : String)

/-- A store from which nobody has acquired a lease. -/
def start (store : KeyStore) : Bidding := ⟨store, [], []⟩

/-- The leases that callers hold. -/
def held (b : Bidding) : List Lease := b.granted ++ b.underway.map (·.1)

/-- The state after a move, with the keys under `root`. -/
def step (root : String) (b : Bidding) : Move → Bidding
  | .attempt link unique scope holder seconds =>
    match Lease.attempt link root unique scope holder seconds b.store with
    | (store, .ok (some lease)) => { b with store, underway := b.underway ++ [(lease, seconds)] }
    | (store, _) => { b with store }
  | .confirm link place =>
    match b.underway[place]? with
    | none => b
    | some (lease, seconds) =>
      match Lease.confirm link root lease seconds b.store with
      | (store, .ok (some granted)) =>
        ⟨store, b.underway.eraseIdx place, b.granted ++ [granted]⟩
      | (store, _) => ⟨store, b.underway.eraseIdx place, b.granted⟩
  | .lapse key => if b.store.lives.contains key then { b with store := b.store.erase key } else b

/-- The state after moves. -/
def run (root : String) (b : Bidding) (moves : List Move) : Bidding := moves.foldl (step root) b

/-- With nothing in between, the two halves of an acquisition are what the store serves. -/
theorem step_step (root : String) (b : Bidding) (link : KeyStore.Link)
    (unique scope holder : String) (seconds : Nat) :
    (b.step root (.attempt link unique scope holder seconds)).step root
        (.confirm link b.underway.length) =
      match Lease.serve link root unique (.acquire scope holder seconds) b.store with
      | (store, .ok (some lease)) => { b with store, granted := b.granted ++ [lease] }
      | (store, _) => { b with store } := by
  rw [Lease.serve_acquire, step]
  cases Lease.attempt link root unique scope holder seconds b.store with
  | mk store answer =>
    match answer with
    | .ok none | .error fault => simp [step]
    | .ok (some lease) =>
      -- What was taken last is at the end of what is under way.
      have hlast : (b.underway ++ [(lease, seconds)])[b.underway.length]? =
          some (lease, seconds) := by simp
      have herase : (b.underway ++ [(lease, seconds)]).eraseIdx b.underway.length =
          b.underway := by simp [List.eraseIdx_append_of_length_le]
      simp only [step, hlast, herase]
      cases Lease.confirm link root lease seconds store with
      | mk store answer =>
        match answer with
        | .ok none | .ok (some granted) | .error fault => rfl

end Bidding

end FlowCadence.Leadership

/-! ## The time of a lease -/

namespace FlowCadence.Leadership.Tenure

/-- What can happen next among callers with leases. -/
inductive Move where
  /-- A move of an acquisition. -/
  | bid (m : Bidding.Move)
  /-- Somebody renews a lease. -/
  | renew (link : KeyStore.Link) (lease : Lease) (seconds : Nat)
  /-- Somebody releases a lease. -/
  | release (link : KeyStore.Link) (lease : Lease)
  /-- A key is gone. -/
  | vanish (key : String)

/-- The move of an acquisition that a move is. -/
def Move.bid? : Move → Option Bidding.Move
  | .bid m => some m
  | .renew .. | .release .. | .vanish _ => none

/-- The state after a move, with the keys under `root`. -/
def step (root : String) (b : Bidding) : Move → Bidding
  | .bid m => b.step root m
  | .renew link lease seconds =>
    { b with store := (Lease.serve link root "" (.renew lease seconds) b.store).1 }
  | .release link lease =>
    { b with store := (Lease.serve link root "" (.release lease) b.store).1 }
  | .vanish key => { b with store := b.store.erase key }

/-- The state after moves. -/
def run (root : String) (b : Bidding) (moves : List Move) : Bidding := moves.foldl (step root) b

end FlowCadence.Leadership.Tenure
