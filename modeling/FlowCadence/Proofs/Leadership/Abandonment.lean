import FlowCadence.Leadership.Bidding
import FlowCadence.Proofs.Leadership.Acquisition
import Mathlib.Data.List.Perm.Basic
/-! # Keys that are left behind

A caller that takes the key of a lease and is not granted the lease leaves the key behind: the
answer to its first command was lost, or its second one failed.  A life that was not limited is
never over, and as long as the key is there no other caller can take it.  Nobody ever holds the
lease of that scope again.

In every other case each key whose life is not limited is in the hands of a caller that is
about to limit it.

## Key results

* `Bidding.Lost.step`: a key that was left behind stays where it is
* `Bidding.Sound.step`, `Bidding.lost_of_forsakes`: what moves keep until a key is left behind
* `left_behind_iff`: when one acquisition leaves the key behind, and when any number of
  callers do -/

namespace FlowCadence

namespace KeyStore

/-- The life of a key is limited if the key is there, and no life is left of one that is not. -/
def Limited (k : KeyStore) (key : String) : Prop := k.get? key = none ↔ k.lives[key]? = none

instance (k : KeyStore) (key : String) : Decidable (k.Limited key) :=
  inferInstanceAs (Decidable (_ ↔ _))

/-- Every command over the link is answered, or it fails without effect. -/
def Link.LosesNothing (link : Link) : Prop := ∀ c reason, link.fate c ≠ .unanswered reason

/-- Whether the life of a key is limited is read off its entry. -/
theorem Limited.of_entry {k k' : KeyStore} {key : String} (h : k.Limited key)
    (hentry : k'.entry key = k.entry key) : k'.Limited key := by
  have htext : k'.get? key = k.get? key := congrArg Prod.fst hentry
  have hlife : k'.lives[key]? = k.lives[key]? := congrArg Prod.snd hentry
  rw [Limited, htext, hlife]
  exact h

end KeyStore

namespace Leadership.Bidding

variable {root scope : String} {b : Bidding}

/-- The key of a scope is there for good and nobody holds the lease: the life of the key is
    not limited, and its token is that of no lease that a caller holds. -/
def LeftBehind (root scope : String) (b : Bidding) : Prop :=
  ∃ token, b.store.entry (Lease.keyOf root scope) = (some token, none) ∧
    ∀ lease ∈ b.held, lease.scope = scope → lease.token ≠ token

/-- The move leaves the key of a scope behind: the key is taken and the answer to that is
    lost, or its life is not limited. -/
def Forsakes (root scope : String) (b : Bidding) : Move → Prop
  | .attempt link unique scope' holder seconds =>
    scope' = scope ∧ Lease.Takes link root unique scope' holder seconds b.store ∧
      link.fate (.setAbsent (Lease.keyOf root scope') (Lease.tokenOf holder unique)) ≠ .answered
  | .confirm link place =>
    ∃ e ∈ b.underway[place]?, e.1.scope = scope ∧
      (link.fate (.expire (Lease.keyOf root e.1.scope) e.2)).carries = false
  | .lapse _ => False

instance (root scope : String) (b : Bidding) : DecidablePred (Forsakes root scope b)
  | .attempt .. => inferInstanceAs (Decidable (_ ∧ _ ∧ _))
  | .confirm .. => inferInstanceAs (Decidable (∃ e ∈ _, _))
  | .lapse _ => inferInstanceAs (Decidable False)

/-- Every command over the link is answered, or it fails without effect. -/
def Move.LosesNothing : Move → Prop
  | .attempt link _ _ _ _ | .confirm link _ => link.LosesNothing
  | .lapse _ => True

/-- The scope and the token of the lease that a move asks for. -/
def Move.asks : Move → Option (String × String)
  | .attempt _ unique scope holder _ => some (scope, Lease.tokenOf holder unique)
  | .confirm .. | .lapse _ => none

/-- The leases of a scope whose keys were taken and are still to be limited. -/
def taking (b : Bidding) (scope : String) : List (Lease × Nat) :=
  b.underway.filter fun e => e.1.scope = scope

/-! ### What a move does -/

/-- An attempt takes a key or it changes nothing. -/
theorem attempt_cases (root : String) (b : Bidding) (link : KeyStore.Link)
    (unique scope holder : String) (seconds : Nat) :
    let b' := b.step root (.attempt link unique scope holder seconds)
    b'.granted = b.granted ∧
      (∀ key, b'.store.entry key =
        if Lease.Takes link root unique scope holder seconds b.store ∧ Lease.keyOf root scope = key
        then (some (Lease.tokenOf holder unique), b.store.lives[key]?) else b.store.entry key) ∧
      b'.underway =
        if Lease.Takes link root unique scope holder seconds b.store ∧
          link.fate (.setAbsent (Lease.keyOf root scope) (Lease.tokenOf holder unique)) = .answered
        then b.underway ++ [(⟨scope, Lease.tokenOf holder unique, holder⟩, seconds)]
        else b.underway := by
  have hentry := Lease.entry_attempt link root unique scope holder seconds b.store
  rw [step]
  cases ha : Lease.attempt link root unique scope holder seconds b.store with
  | mk store answer =>
    have hanswer : (Lease.attempt link root unique scope holder seconds b.store).2 = answer := by
      rw [ha]
    rw [ha] at hentry
    -- Had the key been taken and the store answered, there would be a lease to confirm.
    have hno (hnone : ∀ lease, answer ≠ .ok (some lease)) :
        ¬ (Lease.Takes link root unique scope holder seconds b.store ∧
          link.fate (.setAbsent (Lease.keyOf root scope) (Lease.tokenOf holder unique)) =
            .answered) := by
      intro h
      rw [Lease.attempt_eq_some_iff.2 ⟨h.1, h.2, rfl⟩] at hanswer
      exact hnone _ hanswer.symm
    -- No lease is under way, or the one that was taken is.
    cases answer with
    | error fault => exact ⟨rfl, hentry, (if_neg (hno (by simp))).symm⟩
    | ok found =>
      cases found with
      | none => exact ⟨rfl, hentry, (if_neg (hno (by simp))).symm⟩
      | some lease =>
        obtain ⟨htakes, hset, rfl⟩ := Lease.attempt_eq_some_iff.1 hanswer
        exact ⟨rfl, hentry, (if_pos ⟨htakes, hset⟩).symm⟩

/-- A confirmation of nothing changes nothing. -/
theorem confirm_of_none {place : Nat} (h : b.underway[place]? = none) (link : KeyStore.Link) :
    b.step root (.confirm link place) = b := by
  rw [step, h]

/-- A caller that confirms lets go of its lease unless it is granted, and limits the life of
    the key if that is carried out. -/
theorem confirm_cases (root : String) {lease : Lease} {seconds place : Nat}
    (h : b.underway[place]? = some (lease, seconds)) (link : KeyStore.Link) :
    let b' := b.step root (.confirm link place)
    b'.underway = b.underway.eraseIdx place ∧
      (∀ key, b'.store.entry key =
        if (link.fate (.expire (Lease.keyOf root lease.scope) seconds)).carries = true ∧
          b.store.get? (Lease.keyOf root lease.scope) ≠ none ∧ Lease.keyOf root lease.scope = key
        then (b.store.get? key, some seconds) else b.store.entry key) ∧
      b'.granted =
        if link.fate (.expire (Lease.keyOf root lease.scope) seconds) = .answered
        then b.granted ++ [lease] else b.granted := by
  have hentry := Lease.entry_confirm link root lease seconds b.store
  simp only [step, h]
  cases hc : Lease.confirm link root lease seconds b.store with
  | mk store answer =>
    have hanswer : (Lease.confirm link root lease seconds b.store).2 = answer := by rw [hc]
    rw [hc] at hentry
    -- Had the life been limited and the store answered, the lease would be granted.
    have hno (hnone : ∀ granted, answer ≠ .ok (some granted)) :
        link.fate (.expire (Lease.keyOf root lease.scope) seconds) ≠ .answered := by
      intro hlimited
      rw [Lease.confirm_eq_some_iff.2 ⟨hlimited, rfl⟩] at hanswer
      exact hnone _ hanswer.symm
    -- The lease is granted, or it is dropped.
    cases answer with
    | error fault => exact ⟨rfl, hentry, (if_neg (hno (by simp))).symm⟩
    | ok found =>
      cases found with
      | none => exact ⟨rfl, hentry, (if_neg (hno (by simp))).symm⟩
      | some granted =>
        obtain ⟨hlimited, rfl⟩ := Lease.confirm_eq_some_iff.1 hanswer
        exact ⟨rfl, hentry, (if_pos hlimited).symm⟩

/-- Only a key whose life is limited lapses. -/
theorem lapse_cases (root : String) (b : Bidding) (lapsed key : String) :
    let b' := b.step root (.lapse lapsed)
    b'.underway = b.underway ∧ b'.granted = b.granted ∧
      (b'.store.entry key = b.store.entry key ∨
        b'.store.entry key = (none, none) ∧ b.store.lives[key]? ≠ none) := by
  simp only [step]
  split
  -- The key that lapses had a life, or nothing happens.
  · next hlife =>
    refine ⟨rfl, rfl, ?_⟩
    rw [KeyStore.entry_erase]
    by_cases hkey : lapsed = key
    · subst hkey
      rw [Std.ExtTreeMap.contains_eq_isSome_getElem?] at hlife
      right
      exact ⟨if_pos rfl, Option.isSome_iff_ne_none.1 hlife⟩
    · left
      exact if_neg hkey
  · exact ⟨rfl, rfl, .inl rfl⟩

/-! ### Before a key is left behind, and after -/

/-- No key was left behind so far: the life of the key is limited, or one caller has taken it
    and is about to limit it. -/
inductive Sound (root scope : String) (b : Bidding) : Prop where
  | limited (hidle : b.taking scope = []) (hlimited : b.store.Limited (Lease.keyOf root scope))
  | taken {lease : Lease} {seconds : Nat} (hone : b.taking scope = [(lease, seconds)])
    (hentry : b.store.entry (Lease.keyOf root scope) = (some lease.token, none))

/-- The key was left behind, and no caller is about to limit its life. -/
structure Lost (root scope token : String) (b : Bidding) : Prop where
  entry : b.store.entry (Lease.keyOf root scope) = (some token, none)
  idle : b.taking scope = []
  strangers : ∀ lease ∈ b.granted, lease.scope = scope → lease.token ≠ token

/-- The leases that callers hold and those that they are going to ask for are different. -/
def Distinct (b : Bidding) (moves : List Move) : Prop :=
  (b.held.map (fun lease => (lease.scope, lease.token)) ++ moves.filterMap Move.asks).Nodup

/-- Where nobody is about to confirm a lease of the scope, whoever confirms one has another scope.
-/
theorem not_mem_of_taking_eq_nil (h : b.taking scope = []) {e : Lease × Nat}
    (he : e ∈ b.underway) : e.1.scope ≠ scope := by
  intro hscope
  have hmem : e ∈ b.taking scope := by simp [taking, he, hscope]
  rw [h] at hmem
  cases hmem

/-- What is about to be confirmed is read off what is under way. -/
theorem taking_congr {b' : Bidding} (h : b'.underway = b.underway) (scope : String) :
    b'.taking scope = b.taking scope := by
  rw [taking, taking, h]

/-- Taking the key of another scope makes no difference. -/
theorem taking_append_of_ne {e : Lease × Nat} (h : e.1.scope ≠ scope) {b' : Bidding}
    (hunderway : b'.underway = b.underway ++ [e]) : b'.taking scope = b.taking scope := by
  simp [taking, hunderway, h]

/-- Apart from the lease that is confirmed, the same leases are about to be. -/
theorem taking_eraseIdx (scope : String) {place : Nat} {e : Lease × Nat}
    (h : b.underway[place]? = some e) {b' : Bidding} (hunderway : b'.underway = b.underway.eraseIdx place) :
    (b.taking scope).Perm
      (if e.1.scope = scope then e :: b'.taking scope else b'.taking scope) := by
  obtain ⟨hlt, rfl⟩ := List.getElem?_eq_some_iff.1 h
  -- The one that is confirmed is taken out, and the filter goes through the rest.
  have hperm := (List.getElem_cons_eraseIdx_perm hlt).symm.filter fun e => e.1.scope = scope
  rw [List.filter_cons, ← hunderway] at hperm
  simpa [taking] using hperm

namespace Lost

/-- A key that is lost is left behind: no caller holds its token. -/
theorem leftBehind {token : String} (h : Lost root scope token b) : LeftBehind root scope b := by
  refine ⟨token, h.entry, ?_⟩
  intro lease hlease hscope
  rw [held, List.mem_append, List.mem_map] at hlease
  -- A caller holds what it was granted, or what it is about to confirm.
  rcases hlease with hgranted | ⟨e, he, rfl⟩
  · exact h.strangers lease hgranted hscope
  · exact absurd hscope (not_mem_of_taking_eq_nil h.idle he)

/-- Nobody can take the key, nobody is about to limit its life, and it does not lapse. -/
theorem step {token : String} (h : Lost root scope token b) (m : Move) :
    Lost root scope token (b.step root m) := by
  have htext : b.store.get? (Lease.keyOf root scope) = some token := congrArg Prod.fst h.entry
  have hlife : b.store.lives[Lease.keyOf root scope]? = none := congrArg Prod.snd h.entry
  cases m with
  -- The key is there, so it is not taken again.
  | attempt link unique scope' holder seconds =>
    obtain ⟨hgranted, hentry, hunderway⟩ := attempt_cases root b link unique scope' holder seconds
    -- Were the key taken, it would be free.
    have hother (htakes : Lease.Takes link root unique scope' holder seconds b.store) :
        scope' ≠ scope := by
      intro hscope
      rw [← hscope, htakes.2.1] at htext
      cases htext
    refine ⟨?_, ?_, hgranted ▸ h.strangers⟩
    · rw [hentry, if_neg]
      · exact h.entry
      · intro hkey
        exact hother hkey.1 (Lease.keyOf_inj.1 hkey.2)
    · split at hunderway
      · next htakes => rw [taking_append_of_ne (hother htakes.1) hunderway, h.idle]
      · rw [taking_congr hunderway, h.idle]
  -- Whoever confirms something confirms a lease of another scope.
  | confirm link place =>
    cases hplace : b.underway[place]? with
    | none =>
      rw [confirm_of_none hplace]
      exact h
    | some e =>
      obtain ⟨lease, seconds⟩ := e
      have hother : lease.scope ≠ scope :=
        not_mem_of_taking_eq_nil h.idle (List.mem_of_getElem? hplace)
      obtain ⟨hunderway, hentry, hgranted⟩ := confirm_cases root hplace link
      have htaking := taking_eraseIdx scope hplace hunderway
      rw [if_neg hother, h.idle] at htaking
      refine ⟨?_, htaking.nil_eq.symm, ?_⟩
      · rw [hentry, if_neg]
        · exact h.entry
        · intro hkey
          exact hother (Lease.keyOf_inj.1 hkey.2.2)
      · intro granted hmem hscope
        rw [hgranted] at hmem
        split at hmem
        · rw [List.mem_append, List.mem_singleton] at hmem
          rcases hmem with hmem | rfl
          · exact h.strangers granted hmem hscope
          · exact absurd hscope hother
        · exact h.strangers granted hmem hscope
  -- A life that was not limited does not lapse.
  | lapse lapsed =>
    obtain ⟨hunderway, hgranted, hkept | hlapsed⟩ :=
      lapse_cases root b lapsed (Lease.keyOf root scope)
    · refine ⟨hkept.trans h.entry, ?_, hgranted ▸ h.strangers⟩
      rw [taking_congr hunderway, h.idle]
    · exact absurd hlife hlapsed.2

/-- A key that is lost stays so, whatever moves follow. -/
theorem run {token : String} (h : Lost root scope token b) (moves : List Move) :
    Lost root scope token (b.run root moves) :=
  List.foldlRecOn moves _ h fun _ hb m _ => hb.step m

end Lost

namespace Sound

/-- Only the key of the scope and the leases whose life is about to be limited count. -/
theorem of_same (h : Sound root scope b) {b' : Bidding}
    (hentry : b'.store.entry (Lease.keyOf root scope) = b.store.entry (Lease.keyOf root scope))
    (htaking : (b.taking scope).Perm (b'.taking scope)) : Sound root scope b' := by
  cases h with
  | limited hidle hlimited =>
    rw [hidle] at htaking
    exact .limited htaking.nil_eq.symm (hlimited.of_entry hentry)
  | taken hone hkey =>
    rw [hone] at htaking
    exact .taken (List.perm_singleton.1 htaking.symm) (hentry.trans hkey)

/-- As long as nothing went wrong, no key is left behind. -/
theorem not_leftBehind (h : Sound root scope b) : ¬ LeftBehind root scope b := by
  intro hbehind
  obtain ⟨token, hkey, hstrangers⟩ := hbehind
  cases h with
  -- The life of a key that is there is limited.
  | limited hidle hlimited =>
    have htext : b.store.get? (Lease.keyOf root scope) = some token := congrArg Prod.fst hkey
    rw [hlimited.2 (congrArg Prod.snd hkey)] at htext
    cases htext
  -- A caller holds the token that is under the key.
  | @taken lease seconds hone hentry =>
    have hmem : (lease, seconds) ∈ b.taking scope := by simp [hone]
    rw [taking, List.mem_filter, decide_eq_true_eq] at hmem
    have hheld : lease ∈ b.held :=
      List.mem_append_right _ (List.mem_map.2 ⟨(lease, seconds), hmem.1, rfl⟩)
    -- The token under the key is that of the caller which has taken it.
    rw [hkey] at hentry
    cases hentry
    exact hstrangers lease hheld hmem.2 rfl

/-- A key that can be taken is in nobody's hands, and it has no life. -/
theorem idle_of_takes (h : Sound root scope b) {link : KeyStore.Link} {unique holder : String}
    {seconds : Nat} (htakes : Lease.Takes link root unique scope holder seconds b.store) :
    b.taking scope = [] ∧ b.store.lives[Lease.keyOf root scope]? = none := by
  cases h with
  | limited hidle hlimited => exact ⟨hidle, hlimited.1 htakes.2.1⟩
  | taken hone hentry =>
    -- The key is not free.
    have htext := congrArg Prod.fst hentry
    rw [KeyStore.entry, htakes.2.1] at htext
    cases htext

/-- A caller that is about to limit the life of the key has taken it, and no other caller has. -/
theorem taken_of_place (h : Sound root scope b) {place : Nat} {lease : Lease} {seconds : Nat}
    (hplace : b.underway[place]? = some (lease, seconds)) (hscope : lease.scope = scope)
    {b' : Bidding} (hunderway : b'.underway = b.underway.eraseIdx place) :
    b.store.entry (Lease.keyOf root scope) = (some lease.token, none) ∧ b'.taking scope = [] := by
  have htaking := taking_eraseIdx scope hplace hunderway
  rw [if_pos hscope] at htaking
  -- Nobody was about to confirm, against what this caller does.
  cases h with
  | limited hidle _ =>
    rw [hidle] at htaking
    cases htaking.nil_eq
  -- Only one was, and it is this caller.
  | taken hone hentry =>
    rw [hone] at htaking
    obtain ⟨hsame, hnone⟩ := List.cons.inj (List.singleton_perm.1 htaking)
    cases hsame
    exact ⟨hentry, hnone.symm⟩

/-- Whoever takes the key is about to limit its life next. -/
theorem step_attempt (h : Sound root scope b) {link : KeyStore.Link}
    {unique scope' holder : String} {seconds : Nat}
    (hm : ¬ Forsakes root scope b (.attempt link unique scope' holder seconds)) :
    Sound root scope (b.step root (.attempt link unique scope' holder seconds)) := by
  obtain ⟨hgranted, hentry, hunderway⟩ := attempt_cases root b link unique scope' holder seconds
  -- The key is taken or not.
  by_cases htakes : Lease.Takes link root unique scope' holder seconds b.store
  · by_cases hscope : scope' = scope
    · subst hscope
      -- The answer came, since the move does not forsake the key.
      have hanswered : link.fate (.setAbsent (Lease.keyOf root scope')
          (Lease.tokenOf holder unique)) = .answered :=
        Decidable.byContradiction fun hlost => hm ⟨rfl, htakes, hlost⟩
      obtain ⟨hidle, hlife⟩ := h.idle_of_takes htakes
      have hone : (b.step root (.attempt link unique scope' holder seconds)).taking scope' =
          [(⟨scope', Lease.tokenOf holder unique, holder⟩, seconds)] := by
        rw [if_pos ⟨htakes, hanswered⟩] at hunderway
        rw [taking] at hidle
        simp [taking, hunderway, hidle]
      refine .taken hone ?_
      rw [hentry, if_pos ⟨htakes, rfl⟩, hlife]
    -- It is the key of another scope.
    · refine h.of_same ?_ (.of_eq ?_)
      · rw [hentry, if_neg fun hkey => hscope (Lease.keyOf_inj.1 hkey.2)]
      · split at hunderway
        · exact (taking_append_of_ne hscope hunderway).symm
        · exact (taking_congr hunderway scope).symm
  -- Nothing is taken, so nothing changes.
  · rw [if_neg fun hset => htakes hset.1] at hunderway
    refine h.of_same ?_ (.of_eq (taking_congr hunderway scope).symm)
    rw [hentry, if_neg fun hkey => htakes hkey.1]

/-- Once the life of the key is limited it is in nobody's hands. -/
theorem step_confirm (h : Sound root scope b) {link : KeyStore.Link} {place : Nat}
    (hm : ¬ Forsakes root scope b (.confirm link place)) :
    Sound root scope (b.step root (.confirm link place)) := by
  cases hplace : b.underway[place]? with
  | none =>
    rw [confirm_of_none hplace]
    exact h
  | some e =>
    obtain ⟨lease, seconds⟩ := e
    obtain ⟨hunderway, hentry, -⟩ := confirm_cases root hplace link
    -- The lease is of the scope or of another one.
    by_cases hscope : lease.scope = scope
    · obtain ⟨hkey, hnone⟩ := h.taken_of_place hplace hscope hunderway
      -- The life is limited, since the move does not forsake the key.
      have hcarried : (link.fate (.expire (Lease.keyOf root lease.scope) seconds)).carries =
          true := by
        apply Decidable.byContradiction
        intro hrefused
        exact hm ⟨(lease, seconds), hplace, hscope, Bool.eq_false_iff.2 hrefused⟩
      -- The key is there, as this caller has taken it.
      have htext : b.store.get? (Lease.keyOf root scope) ≠ none := by
        rw [show b.store.get? (Lease.keyOf root scope) = _ from congrArg Prod.fst hkey]
        exact Option.some_ne_none _
      have hlimited := hentry (Lease.keyOf root scope)
      rw [if_pos ⟨hcarried, hscope ▸ htext, congrArg _ hscope⟩] at hlimited
      have hlife := congrArg Prod.snd hlimited
      have hkept := congrArg Prod.fst hlimited
      simp only [KeyStore.entry] at hlife hkept
      refine .limited hnone ?_
      rw [KeyStore.Limited, hkept, hlife]
      exact iff_of_false htext (Option.some_ne_none _)
    -- The key and the leases of the scope are as before.
    · have htaking := taking_eraseIdx scope hplace hunderway
      rw [if_neg hscope] at htaking
      refine h.of_same ?_ htaking
      rw [hentry, if_neg fun hkey => hscope (Lease.keyOf_inj.1 hkey.2.2)]

/-- A key that lapses is gone with its life. -/
theorem step_lapse (h : Sound root scope b) (lapsed : String) :
    Sound root scope (b.step root (.lapse lapsed)) := by
  obtain ⟨hunderway, -, hkept | ⟨hgone, hlife⟩⟩ :=
    lapse_cases root b lapsed (Lease.keyOf root scope)
  -- Another key has lapsed.
  · exact h.of_same hkept (.of_eq (taking_congr hunderway scope).symm)
  -- This one has.
  · cases h with
    | limited hidle _ =>
      have hidle' : (b.step root (.lapse lapsed)).taking scope = [] := by
        rw [taking_congr hunderway, hidle]
      have htext' := congrArg Prod.fst hgone
      have hlife' := congrArg Prod.snd hgone
      simp only [KeyStore.entry] at htext' hlife'
      refine .limited hidle' ?_
      rw [KeyStore.Limited, htext', hlife']
      exact iff_of_true rfl rfl
    | taken _ hkey =>
      -- A life that is not limited yet is not over.
      exact absurd (congrArg Prod.snd hkey) hlife

/-- Until the key is left behind, whoever takes it limits its life next. -/
theorem step (h : Sound root scope b) {m : Move} (hm : ¬ Forsakes root scope b m) :
    Sound root scope (b.step root m) := by
  cases m with
  | attempt link unique scope' holder seconds => exact h.step_attempt hm
  | confirm link place => exact h.step_confirm hm
  | lapse lapsed => exact h.step_lapse lapsed

end Sound

/-! ### Tokens -/

/-- The lease that is confirmed is one of those that are held. -/
theorem held_eraseIdx {lease : Lease} {seconds place : Nat}
    (h : b.underway[place]? = some (lease, seconds)) :
    b.held.Perm (b.granted ++ lease :: (b.underway.eraseIdx place).map (·.1)) := by
  obtain ⟨hlt, heq⟩ := List.getElem?_eq_some_iff.1 h
  have hperm := (List.getElem_cons_eraseIdx_perm hlt).symm
  rw [heq] at hperm
  exact (hperm.map (·.1)).append_left b.granted

namespace Distinct

variable {moves : List Move}

/-- A lease that is taken goes from those asked for to those held. -/
theorem step {m : Move} (h : Distinct b (m :: moves)) : Distinct (b.step root m) moves := by
  cases m with
  | attempt link unique scope' holder seconds =>
    obtain ⟨hgranted, -, hunderway⟩ := attempt_cases root b link unique scope' holder seconds
    have hasks : (Move.attempt link unique scope' holder seconds :: moves).filterMap Move.asks =
        (scope', Lease.tokenOf holder unique) :: moves.filterMap Move.asks := rfl
    rw [Distinct, hasks] at h
    rw [Distinct, held, hgranted, hunderway]
    -- The lease moves from the list of those to be asked for to the end of those held.
    split
    · simpa [held] using h
    · exact h.sublist ((List.sublist_cons_self _ _).append_left _)
  | confirm link place =>
    rw [Distinct, List.filterMap_cons_none rfl] at h
    cases hplace : b.underway[place]? with
    | none =>
      rw [confirm_of_none hplace]
      exact h
    | some e =>
      obtain ⟨lease, seconds⟩ := e
      obtain ⟨hunderway, -, hgranted⟩ := confirm_cases root hplace link
      have hperm :=
        ((held_eraseIdx hplace).map fun lease => (lease.scope, lease.token)).append_right
          (moves.filterMap Move.asks)
      rw [hperm.nodup_iff] at h
      rw [Distinct, held, hgranted, hunderway]
      -- A lease that is granted is still held, and one that is not is dropped.
      split
      · simpa using h
      · refine h.sublist (List.Sublist.append_right (List.Sublist.map _ ?_) _)
        exact (List.sublist_cons_self _ _).append_left _
  | lapse lapsed =>
    obtain ⟨hunderway, hgranted, -⟩ := lapse_cases root b lapsed lapsed
    rw [Distinct, List.filterMap_cons_none rfl] at h
    rw [Distinct, held, hgranted, hunderway]
    exact h

end Distinct

/-- What is held and what is asked for next are different leases. -/
theorem Distinct.ne_of_granted {moves : List Move} {m : Move} (h : Distinct b (m :: moves))
    {asked : String × String} (hasks : m.asks = some asked) {lease : Lease}
    (hlease : lease ∈ b.granted) : (lease.scope, lease.token) ≠ asked := by
  intro heq
  have hheld : asked ∈ b.held.map fun lease => (lease.scope, lease.token) :=
    List.mem_map.2 ⟨lease, List.mem_append_left _ hlease, heq⟩
  have hnext : asked ∈ (m :: moves).filterMap Move.asks :=
    List.mem_filterMap.2 ⟨m, List.mem_cons_self, hasks⟩
  exact (List.nodup_append.1 h).2.2 asked hheld asked hnext rfl

/-- No lease that was granted is under way as well. -/
theorem Distinct.ne_of_underway {moves : List Move} (h : Distinct b moves) {e : Lease × Nat}
    (he : e ∈ b.underway) {lease : Lease} (hlease : lease ∈ b.granted) :
    (lease.scope, lease.token) ≠ (e.1.scope, e.1.token) := by
  intro heq
  have hheld := (List.nodup_append.1 h).1
  rw [held, List.map_append] at hheld
  have hgranted : (lease.scope, lease.token) ∈
      b.granted.map fun lease => (lease.scope, lease.token) :=
    List.mem_map.2 ⟨lease, hlease, rfl⟩
  have hunderway : (lease.scope, lease.token) ∈
      (b.underway.map (·.1)).map fun lease => (lease.scope, lease.token) :=
    List.mem_map.2 ⟨e.1, List.mem_map.2 ⟨e, he, rfl⟩, heq.symm⟩
  exact (List.nodup_append.1 hheld).2.2 _ hgranted _ hunderway rfl

/-- A key that is forsaken is left behind under a token that nobody holds. -/
theorem lost_of_forsakes (h : Sound root scope b) {m : Move} {moves : List Move}
    (hdistinct : Distinct b (m :: moves)) (hm : Forsakes root scope b m) :
    ∃ token, Lost root scope token (b.step root m) := by
  -- The answer was lost, or the life was not limited.
  cases m with
  | attempt link unique scope' holder seconds =>
    obtain ⟨rfl, htakes, hlost⟩ := hm
    obtain ⟨hgranted, hentry, hunderway⟩ := attempt_cases root b link unique scope' holder seconds
    rw [if_neg fun h => hlost h.2] at hunderway
    obtain ⟨hidle, hlife⟩ := h.idle_of_takes htakes
    refine ⟨Lease.tokenOf holder unique, ?_, ?_, ?_⟩
    · rw [hentry, if_pos ⟨htakes, rfl⟩, hlife]
    · rw [taking_congr hunderway, hidle]
    · -- The token was asked for by this move alone.
      intro lease hlease hscope htoken
      rw [hgranted] at hlease
      exact hdistinct.ne_of_granted rfl hlease (by rw [hscope, htoken])
  | confirm link place =>
    obtain ⟨⟨lease, seconds⟩, hplace, hscope, hrefused⟩ := hm
    obtain ⟨hunderway, hentry, hgranted⟩ := confirm_cases root hplace link
    obtain ⟨hkey, hnone⟩ := h.taken_of_place hplace hscope hunderway
    -- A command that was not carried out was not answered either.
    have hunanswered : link.fate (.expire (Lease.keyOf root lease.scope) seconds) ≠ .answered := by
      intro hanswered
      rw [hanswered] at hrefused
      cases hrefused
    rw [if_neg hunanswered] at hgranted
    refine ⟨lease.token, ?_, hnone, ?_⟩
    · rw [hentry, if_neg fun h => Bool.false_ne_true (hrefused.symm.trans h.1)]
      exact hkey
    -- The token is that of this lease, and no lease that was granted has it.
    · intro granted hlease hscope' htoken
      rw [hgranted] at hlease
      exact hdistinct.ne_of_underway (List.mem_of_getElem? hplace) hlease
        (by rw [hscope', htoken, hscope])
  | lapse lapsed => cases hm

/-! ### Runs -/

/-- From a sound state on, a key is left behind if some move forsakes it. -/
theorem leftBehind_run_iff (h : Sound root scope b) {moves : List Move}
    (hdistinct : Distinct b moves) :
    LeftBehind root scope (b.run root moves) ↔
      ∃ (j : Nat) (hj : j < moves.length),
        Forsakes root scope (b.run root (moves.take j)) moves[j] := by
  induction moves generalizing b with
  -- Nothing was moved, and nothing was left behind.
  | nil =>
    refine iff_of_false h.not_leftBehind ?_
    intro ⟨j, hj, _⟩
    cases hj
  | cons m moves ih =>
    -- The first move forsakes the key, or the rest of the moves decides.
    by_cases hm : Forsakes root scope b m
    · -- The key stays where it is from now on.
      obtain ⟨token, hlost⟩ := lost_of_forsakes h hdistinct hm
      exact iff_of_true (hlost.run moves).leftBehind ⟨0, Nat.zero_lt_succ _, hm⟩
    · have hrest := ih (h.step hm) hdistinct.step
      constructor
      · intro hbehind
        obtain ⟨j, hj, hforsakes⟩ := hrest.1 hbehind
        exact ⟨j + 1, Nat.succ_lt_succ hj, hforsakes⟩
      · intro ⟨j, hj, hforsakes⟩
        cases j with
        | zero => exact absurd hforsakes hm
        | succ j => exact hrest.2 ⟨j, Nat.lt_of_succ_lt_succ hj, hforsakes⟩

end Leadership.Bidding

open Leadership Leadership.Bidding

/-- That an acquisition which comes to no lease leaves the key and its life as they were is
    true for every store, request and link, except where the key is taken and one of the two
    commands is not answered.

    Let any number of callers acquire leases under different tokens, from a store where the
    key of a scope has its life limited if it is there.  Then the key is there in the end with
    no limit to its life, under a token that no caller holds, exactly if one of the
    acquisitions has forsaken it. -/
theorem left_behind_iff (root scope : String) :
    (∀ (link : KeyStore.Link) (unique holder : String) (seconds : Nat) (k : KeyStore),
      ((∀ lease,
          (Lease.serve link root unique (.acquire scope holder seconds) k).2 ≠ .ok (some lease)) →
        (Lease.serve link root unique (.acquire scope holder seconds) k).1.entry
            (Lease.keyOf root scope) = k.entry (Lease.keyOf root scope)) ↔
        ¬ Lease.Forsakes link root unique scope holder seconds k) ∧
    ∀ (k : KeyStore) (moves : List Move),
      k.Limited (Lease.keyOf root scope) → (moves.filterMap Move.asks).Nodup →
      (LeftBehind root scope ((start k).run root moves) ↔
        ∃ (j : Nat) (hj : j < moves.length),
          Forsakes root scope ((start k).run root (moves.take j)) moves[j]) := by
  -- One acquisition, and then many.
  constructor
  · intro link unique holder seconds k
    exact Lease.unchanged_iff
  · intro k moves hlimited hdistinct
    have hstart : Sound root scope (start k) := .limited rfl hlimited
    exact leftBehind_run_iff hstart hdistinct

/-- Every command is answered. -/
private def answeringLink : KeyStore.Link := .up fun _ => .answered

/-- No life can be limited. -/
private def fullStoreLink : KeyStore.Link := .up fun
  | .expire .. => .refused "out of memory"
  | _ => .answered

/-- The first caller is granted the lease, and a second one does not get it.  When the lease
    has lapsed the second caller tries again, in vain at first. -/
private def lapsingMoves : List Move :=
  [.attempt answeringLink "1" "flows" "a" 30, .attempt fullStoreLink "2" "flows" "b" 30,
    .confirm answeringLink 0,
    .lapse "tempora:leader:flows", .attempt (.down "no route") "3" "flows" "b" 30,
    .attempt answeringLink "4" "flows" "b" 30, .confirm answeringLink 0]

/-- A lease that is held is not acquired again, and nothing is left behind when it lapses. -/
theorem left_behind_nothing :
    let held := ((start .empty).run "tempora" (lapsingMoves.take 3)).store
    let b := (start .empty).run "tempora" lapsingMoves
    (Lease.serve fullStoreLink "tempora" "2" (.acquire "flows" "b" 30) held).1.entry
        "tempora:leader:flows" = (some "a:1", some 30) ∧
      b.granted.map (·.token) = ["a:1", "b:4"] ∧ ¬ LeftBehind "tempora" "flows" b := by
  intro held b
  -- The key is held, and the acquisition finds it so.
  have hheld : held.entry "tempora:leader:flows" = (some "a:1", some 30) := by decide +kernel
  have hno :
      (Lease.serve fullStoreLink "tempora" "2" (.acquire "flows" "b" 30) held).2 = .ok none := by
    decide +kernel
  refine ⟨?_, by decide +kernel, ?_⟩
  · rw [← hheld]
    refine ((left_behind_iff "tempora" "flows").1 fullStoreLink "2" "b" 30 held).2
      (by decide +kernel) ?_
    intro lease hlease
    rw [hno] at hlease
    cases hlease
  -- No move of the list forsakes the key.
  · have hnever : ∀ (j : Nat) (hj : j < lapsingMoves.length),
        ¬ Forsakes "tempora" "flows" ((start .empty).run "tempora" (lapsingMoves.take j))
          lapsingMoves[j] := by
      decide +kernel
    rw [(left_behind_iff "tempora" "flows").2 .empty lapsingMoves (by decide +kernel)
      (by decide +kernel)]
    intro ⟨j, hj, hforsakes⟩
    exact hnever j hj hforsakes

/-- The life of a key that was taken cannot be limited: the acquisition fails, and the key is
    there for good. -/
theorem not_left_as_it_was :
    (¬ ∀ (link : KeyStore.Link) (root unique scope holder : String) (seconds : Nat) (k : KeyStore),
      link.LosesNothing →
      (∀ lease,
        (Lease.serve link root unique (.acquire scope holder seconds) k).2 ≠ .ok (some lease)) →
      (Lease.serve link root unique (.acquire scope holder seconds) k).1.entry
          (Lease.keyOf root scope) = k.entry (Lease.keyOf root scope)) ∧
    ¬ ∀ (root scope : String) (k : KeyStore) (moves : List Move),
      (∀ m ∈ moves, m.LosesNothing) → k.Limited (Lease.keyOf root scope) →
      (moves.filterMap Move.asks).Nodup → ¬ LeftBehind root scope ((start k).run root moves) := by
  -- The link refuses commands and loses no answer.
  have hlossless : fullStoreLink.LosesNothing := by
    intro c reason
    cases c <;> simp [fullStoreLink, KeyStore.Link.fate]
  constructor
  · intro h
    have hfault : (Lease.serve fullStoreLink "tempora" "1" (.acquire "flows" "a" 30) .empty).2 =
        .error (.internal "failed to set leadership lease ttl: out of memory") := by
      decide +kernel
    have hsame := h fullStoreLink "tempora" "1" "flows" "a" 30 .empty hlossless
      fun lease hlease => by
      rw [hfault] at hlease
      cases hlease
    exact absurd hsame (by decide +kernel)
  · intro h
    refine h "tempora" "flows" .empty
      [.attempt fullStoreLink "1" "flows" "a" 30, .confirm fullStoreLink 0] ?_ (by decide +kernel)
      (by decide +kernel) ⟨"a:1", by decide +kernel, ?_⟩
    · intro m hm
      simp only [List.mem_cons, List.not_mem_nil, or_false] at hm
      rcases hm with rfl | rfl
      · exact hlossless
      · exact hlossless
    · have hheld : ((start .empty).run "tempora"
          [.attempt fullStoreLink "1" "flows" "a" 30, .confirm fullStoreLink 0]).held = [] := by
        decide +kernel
      rw [hheld]
      intro lease hlease
      cases hlease

end FlowCadence
