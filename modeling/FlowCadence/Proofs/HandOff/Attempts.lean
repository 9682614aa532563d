import FlowCadence.HandOff.Basic
/-! # Repeated attempts

A hand-off is repeated as long as it meets with passing trouble and an attempt is left.  It
ends with the first reply that is no passing trouble, or with the last attempt, and the reply
that it ends with is what it comes to.  The attempts before it leave a pause and an alert each.

## Key results

* `verdict_of_isTransient`, `verdict_of_not_isTransient`: what replies come to
* `attemptsAfter_eq`: the whole record of the attempts that are left
* `repeated_until_settled`: the same for a hand-off from its first attempt on -/

namespace FlowCadence.HandOff

variable {p : Policy} {f : Flow} {r : Request} {replies : Nat → Reply} {attempt : UInt8} {k : Nat}

/-! ### Replies -/

/-- Too many requests is the status of that code. -/
theorem Status.eq_tooManyRequests_iff {s : Status} : s = .tooManyRequests ↔ s.code = 429 :=
  ⟨fun h => h ▸ rfl, fun h => by cases s; exact congrArg Status.mk h⟩

/-- The reply is passing trouble: the service is in trouble of its own or asks for fewer
    requests, or it does not answer at all. -/
def Reply.IsTransient : Reply → Prop
  | .status s _ => (500 ≤ s.code ∧ s.code < 600) ∨ s.code = 429
  | .broken _ => True

instance : DecidablePred Reply.IsTransient
  | .status s _ => inferInstanceAs (Decidable ((500 ≤ s.code ∧ s.code < 600) ∨ s.code = 429))
  | .broken _ => inferInstanceAs (Decidable True)

/-- How passing trouble is described. -/
def Reply.problem (f : Flow) : Reply → String
  | .status s _ => "transient HTTP status " ++ s.text ++ " running flow '" ++ f.uri.text ++ "'"
  | .broken reason => "execution engine transport error: " ++ reason

/-- A status is described with its code. -/
theorem problem_status {s : Status} {body : Option String} : (Reply.status s body).problem f =
    "transient HTTP status " ++ s.text ++ " running flow '" ++ f.uri.text ++ "'" := by
  unfold Reply.problem
  rfl

/-- A broken connection is described with the reason. -/
theorem problem_broken {reason : String} :
    (Reply.broken reason).problem f = "execution engine transport error: " ++ reason := by
  unfold Reply.problem
  rfl

/-- What a hand-off comes to that ends with the reply. -/
def Reply.conclusion (f : Flow) (reply : Reply) : Except Fault Unit :=
  match reply.verdict f with
  | .accepted => .ok ()
  | .rejected fault => .error fault
  | .trouble problem => .error (.unavailable problem)

/-- Passing trouble leads to another attempt, if one is left. -/
theorem verdict_of_isTransient {reply : Reply} (h : reply.IsTransient) :
    reply.verdict f = .trouble (reply.problem f) := by
  cases reply with
  | broken reason => rw [Reply.verdict, problem_broken]
  | status s body =>
    have hcode : (500 ≤ s.code ∧ s.code < 600) ∨ s.code = 429 := h
    -- Such a code is no success, so the other two cases of the verdict decide.
    have hsuccess : s.isSuccess = false := by
      simp only [Status.isSuccess, Bool.and_eq_false_iff, decide_eq_false_iff_not]
      omega
    have htrouble : s.isServerError || s = .tooManyRequests := by
      simpa [Status.isServerError, Status.eq_tooManyRequests_iff] using hcode
    rw [Reply.verdict, if_neg (by simp [hsuccess]), if_pos htrouble, problem_status]

/-- A reply that is no passing trouble has a status: the flow was accepted, or it was
    rejected with this status and body. -/
theorem verdict_of_not_isTransient {reply : Reply} (h : ¬ reply.IsTransient) :
    ∃ s body, reply = .status s body ∧ reply.verdict f =
      if 200 ≤ s.code ∧ s.code < 300 then .accepted
      else .rejected (.validation ("execution engine rejected flow '" ++ f.uri.text ++
        "' with status " ++ s.text ++ ": " ++ body.getD "<response body unavailable>")) := by
  cases reply with
  | broken reason => exact absurd trivial h
  | status s body =>
    refine ⟨s, body, rfl, ?_⟩
    have hcode : ¬ ((500 ≤ s.code ∧ s.code < 600) ∨ s.code = 429) := h
    have htrouble : ¬ (s.isServerError || s = .tooManyRequests) := by
      simpa [Status.isServerError, Status.eq_tooManyRequests_iff] using hcode
    simp only [Reply.verdict, if_neg htrouble, Status.isSuccess, Bool.and_eq_true,
      decide_eq_true_eq]

/-- Only passing trouble does. -/
theorem isTransient_of_verdict {reply : Reply} {problem : String}
    (h : reply.verdict f = .trouble problem) : reply.IsTransient := by
  refine Decidable.by_contra fun hsettled => ?_
  obtain ⟨s, body, -, hverdict⟩ := verdict_of_not_isTransient (f := f) hsettled
  rw [h] at hverdict
  split at hverdict <;> cases hverdict

/-- A hand-off that ends with any other reply comes to what the reply says. -/
theorem conclusion_of_not_isTransient {reply : Reply} (h : ¬ reply.IsTransient) :
    ∃ s body, reply = .status s body ∧ reply.conclusion f =
      if 200 ≤ s.code ∧ s.code < 300 then .ok ()
      else .error (.validation ("execution engine rejected flow '" ++ f.uri.text ++
        "' with status " ++ s.text ++ ": " ++ body.getD "<response body unavailable>")) := by
  obtain ⟨s, body, hreply, hverdict⟩ := verdict_of_not_isTransient (f := f) h
  refine ⟨s, body, hreply, ?_⟩
  rw [Reply.conclusion, hverdict]
  by_cases hsuccess : 200 ≤ s.code ∧ s.code < 300
  · simp only [if_pos hsuccess]
  · simp only [if_neg hsuccess]

/-- One that ends with passing trouble comes to a failure of the service. -/
theorem conclusion_of_isTransient {reply : Reply} (h : reply.IsTransient) :
    reply.conclusion f = .error (.unavailable (reply.problem f)) := by
  rw [Reply.conclusion, verdict_of_isTransient h]

/-- The words for a hand-off without any attempt describe no reply. -/
theorem problem_ne_exhausted (f : Flow) (reply : Reply) :
    reply.problem f ≠ "execution engine hand-off exhausted retries" := by
  -- One letter tells the texts apart, and it stands before what a reply fills in.
  intro h
  cases reply with
  | status s body =>
    have hchars := congrArg (fun text => text.toList[0]?) h
    simp only [problem_status, String.toList_append, List.append_assoc] at hchars
    revert hchars
    rw [List.getElem?_append_left (by decide +kernel)]
    decide +kernel
  | broken reason =>
    have hchars := congrArg (fun text => text.toList[17]?) h
    simp only [problem_broken, String.toList_append] at hchars
    revert hchars
    rw [List.getElem?_append_left (by decide +kernel)]
    decide +kernel

/-! ### Attempts -/

/-- Of the attempts from behind number `a` up to number `n`, the hand-off ends with `k`: those
    before meet with passing trouble, and this one does not or is the last. -/
structure EndsWith (replies : Nat → Reply) (a n k : Nat) : Prop where
  lt : a < k
  le : k ≤ n
  before : ∀ i, a < i → i < k → (replies i).IsTransient
  last : k = n ∨ ¬ (replies k).IsTransient

/-- The next attempt is the one that the hand-off ends with. -/
theorem attemptsAfter_of_ends
    (h : EndsWith replies attempt.toNat p.attempts.toNat (attempt.toNat + 1))
    (problem : Option String) :
    attemptsAfter p f r replies attempt problem =
      .last ((replies (attempt.toNat + 1)).conclusion f) r := by
  have hlt : attempt < p.attempts := UInt8.lt_iff_toNat_lt.2 (by have := h.le; omega)
  have hnext := toNat_countOn hlt
  rw [attemptsAfter, dif_pos hlt]
  simp only [hnext, Reply.conclusion]
  cases hverdict : (replies (attempt.toNat + 1)).verdict f with
  | accepted => rfl
  | rejected fault => rfl
  | trouble problem =>
    -- Only the last attempt may end the hand-off in this way, and then none is left.
    have hlast : ¬ countOn attempt < p.attempts := by
      rw [UInt8.lt_iff_toNat_lt, hnext]
      rcases h.last with heq | hsettled
      · omega
      · exact absurd (isTransient_of_verdict hverdict) hsettled
    dsimp only
    rw [if_neg hlast, attemptsAfter, dif_neg hlast]
    rfl

/-- The next attempt meets with passing trouble, and another one is left. -/
theorem attemptsAfter_of_isTransient (hlt : attempt.toNat + 1 < p.attempts.toNat)
    (h : (replies (attempt.toNat + 1)).IsTransient) (problem : Option String) :
    let trouble := (replies (attempt.toNat + 1)).problem f
    attemptsAfter p f r replies attempt problem =
      .behind r (.afterPause (p.pause (attempt.toNat + 1)) trouble
        (attemptsAfter p f r replies (countOn attempt) (some trouble))) := by
  intro trouble
  have hleft : attempt < p.attempts := UInt8.lt_iff_toNat_lt.2 (by omega)
  have hnext := toNat_countOn hleft
  have hmore : countOn attempt < p.attempts := by
    rw [UInt8.lt_iff_toNat_lt, hnext]
    exact hlt
  rw [attemptsAfter, dif_pos hleft]
  simp only [hnext, verdict_of_isTransient h]
  exact if_pos hmore

/-- The whole record of the attempts that are left: the same request each time, a pause and
    an alert between one and the next, and the conclusion from the last of them. -/
theorem attemptsAfter_eq (h : EndsWith replies attempt.toNat p.attempts.toNat k)
    (problem : Option String) :
    attemptsAfter p f r replies attempt problem =
      let inVain := List.range' (attempt.toNat + 1) (k - (attempt.toNat + 1))
      { result := (replies k).conclusion f
        requests := List.replicate (k - attempt.toNat) r
        pauses := inVain.map p.pause
        alerts := inVain.map fun i => .handOffRetried ((replies i).problem f) } := by
  -- On how many attempts come before the last one: the count starts anywhere.
  induction hleft : k - (attempt.toNat + 1) generalizing attempt problem with
  | zero =>
    obtain rfl : k = attempt.toNat + 1 := by have := h.lt; omega
    rw [attemptsAfter_of_ends h]
    simp [Record.last]
  | succ left ih =>
    have hlt : attempt.toNat + 1 < p.attempts.toNat := by have := h.le; omega
    have hnext := toNat_countOn (UInt8.lt_iff_toNat_lt.2 (Nat.lt_of_succ_lt hlt))
    have hrest : EndsWith replies (countOn attempt).toNat p.attempts.toNat k :=
      ⟨by omega, h.le, fun i hi => h.before i (by omega), h.last⟩
    rw [attemptsAfter_of_isTransient hlt (h.before _ (by omega) (by omega)),
      ih hrest _ (by omega)]
    have hrequests : k - attempt.toNat = k - (attempt.toNat + 1) + 1 := by omega
    simp [Record.behind, Record.afterPause, hnext, hrequests, hleft, List.range'_succ,
      List.replicate_succ]

/-- There is an attempt that the hand-off ends with. -/
theorem exists_endsWith (replies : Nat → Reply) {a n : Nat} (h : a < n) :
    ∃ k, EndsWith replies a n k := by
  -- On how many attempts are left; the first one that settles the matter is the one to end with.
  induction hleft : n - (a + 1) generalizing a with
  | zero => exact ⟨n, h, Nat.le_refl n, fun i hi hin => by omega, .inl rfl⟩
  | succ left ih =>
    by_cases hnext : (replies (a + 1)).IsTransient
    · obtain ⟨k, hk⟩ := ih (a := a + 1) (by omega) (by omega)
      refine ⟨k, Nat.lt_of_succ_lt hk.lt, hk.le, fun i hi hik => ?_, hk.last⟩
      rcases Nat.lt_or_eq_of_le (Nat.succ_le_of_lt hi) with hlater | rfl
      · exact hk.before i hlater hik
      · exact hnext
    · exact ⟨a + 1, Nat.lt_succ_self a, h, fun i hi hik => by omega, .inr hnext⟩

/-! ### Hand-offs -/

/-- The numbers of a policy are the given ones, unless these are too small. -/
theorem ofNumbers_toNat (attempts : UInt8) (backoff : UInt64) :
    (Policy.ofNumbers attempts backoff).attempts.toNat = max 1 attempts.toNat ∧
      (Policy.ofNumbers attempts backoff).backoff.toNat = max 50 backoff.toNat := by
  constructor
  · show (if 1 ≤ attempts then attempts else 1).toNat = _
    split
    · next h => exact (Nat.max_eq_right (UInt8.le_iff_toNat_le.1 h)).symm
    · next h => exact (Nat.max_eq_left (Nat.le_of_not_le (h ∘ UInt8.le_iff_toNat_le.2))).symm
  · show (if 50 ≤ backoff then backoff else 50).toNat = _
    split
    · next h => exact (Nat.max_eq_right (UInt64.le_iff_toNat_le.1 h)).symm
    · next h => exact (Nat.max_eq_left (Nat.le_of_not_le (h ∘ UInt64.le_iff_toNat_le.2))).symm

/-- A conclusion never says that there was no attempt. -/
theorem conclusion_ne_exhausted (reply : Reply) : reply.conclusion f ≠
    .error (.unavailable "execution engine hand-off exhausted retries") := by
  by_cases htransient : reply.IsTransient
  · rw [conclusion_of_isTransient htransient]
    intro h
    exact problem_ne_exhausted f reply (congrArg Fault.detail (Except.error.inj h))
  · obtain ⟨s, body, -, hconclusion⟩ := conclusion_of_not_isTransient (f := f) htransient
    rw [hconclusion]
    split <;> nofun

/-- A hand-off is repeated until a reply is no passing trouble or no attempt is left: it comes
    to what the last reply says, with the same request each time and the pauses between. -/
theorem repeated_until_settled (attempts : UInt8) (backoff : UInt64) (f : Flow)
    (id : Identifier) (replies : Nat → Reply) (h : fitsHeader f.uri.text = true) :
    let record := handOff (.ofNumbers attempts backoff) f id replies
    let n := max 1 attempts.toNat
    (∀ k, 1 ≤ k → k ≤ n → (∀ i, 1 ≤ i → i < k → (replies i).IsTransient) →
      ¬ (replies k).IsTransient →
      record.requests.length = k ∧ ∃ s body, replies k = .status s body ∧ record.result =
        if 200 ≤ s.code ∧ s.code < 300 then .ok ()
        else .error (.validation ("execution engine rejected flow '" ++ f.uri.text ++
          "' with status " ++ s.text ++ ": " ++ body.getD "<response body unavailable>"))) ∧
    ((∀ i, 1 ≤ i → i ≤ n → (replies i).IsTransient) →
      record.requests.length = n ∧
        record.result = .error (.unavailable ((replies n).problem f))) ∧
    record.result ≠ .error (.unavailable "execution engine hand-off exhausted retries") ∧
    (∀ r ∈ record.requests, r = requestFor f id) ∧
    record.pauses = (List.range' 1 (record.requests.length - 1)).map fun i =>
      min (max 50 backoff.toNat * i) (UInt64.size - 1) := by
  intro record n
  obtain ⟨hn, hbackoff⟩ := ofNumbers_toNat attempts backoff
  have hrecord {k : Nat} (hends : EndsWith replies 0 n k) : record =
      { result := (replies k).conclusion f
        requests := List.replicate k (requestFor f id)
        pauses := (List.range' 1 (k - 1)).map (Policy.ofNumbers attempts backoff).pause
        alerts := (List.range' 1 (k - 1)).map fun i =>
          .handOffRetried ((replies i).problem f) } := by
    have hstart : EndsWith replies (0 : UInt8).toNat
        (Policy.ofNumbers attempts backoff).attempts.toNat k := by rwa [hn]
    exact (if_pos h).trans (attemptsAfter_eq hstart none)
  have hpos : 0 < n := Nat.lt_of_lt_of_le Nat.zero_lt_one (Nat.le_max_left ..)
  obtain ⟨last, hlast⟩ := exists_endsWith replies hpos
  refine ⟨fun k hk hkn hbefore hsettled => ?_, fun htransient => ?_, ?_, fun r hr => ?_, ?_⟩
  · rw [hrecord ⟨hk, hkn, hbefore, .inr hsettled⟩]
    exact ⟨List.length_replicate, conclusion_of_not_isTransient hsettled⟩
  · rw [hrecord ⟨hpos, Nat.le_refl n, fun i hi hin => htransient i hi (Nat.le_of_lt hin), .inl rfl⟩]
    exact ⟨List.length_replicate,
      conclusion_of_isTransient (htransient n hpos (Nat.le_refl n))⟩
  · rw [hrecord hlast]
    exact conclusion_ne_exhausted (replies last)
  · rw [hrecord hlast] at hr
    exact List.eq_of_mem_replicate hr
  · rw [hrecord hlast]
    simp only [List.length_replicate]
    refine List.map_congr_left fun i _ => ?_
    rw [Policy.pause, hbackoff]
    rfl

/-- A flow to hand off. -/
private def rejectedFlow : Flow := ⟨⟨"flow://g", Eq.refl false⟩, ⟨"1", Eq.refl false⟩, none, ∅⟩

/-- The service is busy at first, then it cannot be reached, then it refuses. -/
private def busyThenRefused : Nat → Reply
  | 1 => .status ⟨503⟩ (some "busy")
  | 2 => .broken "closed"
  | _ => .status ⟨400⟩ (some "unknown flow")

/-- Of five attempts, three are made: the third reply settles the hand-off. -/
theorem repeated_until_third_reply :
    fitsHeader rejectedFlow.uri.text = true ∧
      let record := handOff (.ofNumbers 5 100) rejectedFlow ⟨1⟩ busyThenRefused
      record.requests.length = 3 ∧
        record.result = .error (.validation
          "execution engine rejected flow 'flow://g' with status 400 Bad Request: unknown flow") ∧
        record.pauses = [100, 200] := by
  have hfits : fitsHeader rejectedFlow.uri.text = true := by decide +kernel
  obtain ⟨hsettled, -, -, -, hpauses⟩ :=
    repeated_until_settled 5 100 rejectedFlow ⟨1⟩ busyThenRefused hfits
  have hbefore : ∀ i, 1 ≤ i → i < 3 → (busyThenRefused i).IsTransient := by
    intro i hi hi'
    obtain rfl | rfl : i = 1 ∨ i = 2 := by omega
    · exact .inl ⟨by decide, by decide⟩
    · exact trivial
  obtain ⟨hlength, s, body, hreply, hresult⟩ :=
    hsettled 3 (by decide) (by decide) hbefore (by decide)
  cases hreply
  rw [if_neg (by decide)] at hresult
  rw [hlength] at hpauses
  have hdetail : "execution engine rejected flow '" ++ rejectedFlow.uri.text ++ "' with status " ++
      Status.text ⟨400⟩ ++ ": " ++ (some "unknown flow").getD "<response body unavailable>" =
        "execution engine rejected flow 'flow://g' with status 400 Bad Request: unknown flow" := by
    decide +kernel
  rw [hdetail] at hresult
  exact ⟨hfits, hlength, hresult, hpauses.trans (by decide)⟩

end FlowCadence.HandOff
