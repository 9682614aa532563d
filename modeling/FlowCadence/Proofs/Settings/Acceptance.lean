import FlowCadence.Leadership.Loop
import FlowCadence.Leadership.LeaseStore
import FlowCadence.ForStd
import FlowCadence.Settings.Basic
/-! # Which settings are accepted

Settings are accepted when there is a web address for the service that runs flows, every
number that is given can be read, no size is zero, a lease is renewed before it ends, and the
job properties can be read.  What a URL is, is up to whoever reads URLs.  A node whose settings
are accepted never asks for a lease in a way that is refused as invalid.

## Key results

* `Number.read_eq_ok_iff`: which texts are numbers within a limit
* `readOrchestrator_eq_ok_iff`: which addresses are taken
* `ofLookup_eq_ok_iff`: when settings are accepted, and what they are
* `accepted_iff`: what settings have to be, and that they are good for the lease -/

namespace FlowCadence

namespace Settings

variable {read : Url.Reader} {lookup : String → Option String} {name text processId : String}
  {limit n m : Nat} {cs : List Char}

/-! ### Texts -/

/-- A text is given when there is one that is not blank. -/
theorem given_eq_some_iff : given lookup name = some text ↔
    ∃ raw, lookup name = some raw ∧ Text.isBlank raw = false ∧ Text.trim raw = text := by
  -- A trimmed text is empty if nothing but white space was there.
  have hblank (raw : String) : (!(Text.trim raw).isEmpty) = !Text.isBlank raw := by
    rw [Bool.eq_iff_iff.2 (String.isEmpty_iff.trans Text.trim_eq_empty_iff)]
  simp only [given, Option.filter_eq_some_iff, Option.map_eq_some_iff]
  constructor
  · rintro ⟨⟨raw, hraw, rfl⟩, hne⟩
    exact ⟨raw, hraw, by simpa [hblank] using hne, rfl⟩
  · rintro ⟨raw, hraw, hne, rfl⟩
    exact ⟨⟨raw, hraw, rfl⟩, by rw [hblank, hne]; rfl⟩

/-- The texts without those that are blank. -/
def withoutBlank (lookup : String → Option String) (name : String) : Option String :=
  (lookup name).filter fun text => !Text.isBlank text

/-- It makes no difference whether blank texts are left out. -/
theorem given_withoutBlank : given (withoutBlank lookup) = given lookup := by
  funext name
  refine Option.ext fun text => ?_
  rw [given_eq_some_iff, given_eq_some_iff]
  refine exists_congr fun raw => ?_
  rw [withoutBlank, Option.filter_eq_some_iff]
  constructor
  · rintro ⟨⟨hraw, -⟩, hne, htrim⟩
    exact ⟨hraw, hne, htrim⟩
  · rintro ⟨hraw, hne, htrim⟩
    exact ⟨⟨hraw, by rw [hne]; rfl⟩, hne, htrim⟩

/-! ### Numbers -/

/-- Decimal digits, at least one, that write a number up to the limit. -/
structure Writes (limit : Nat) (digits : List Char) (n : Nat) : Prop where
  ne_nil : digits ≠ []
  isDigit : ∀ c ∈ digits, c.isDigit = true
  value : Nat.ofDigitChars 10 digits 0 = n
  le : n ≤ limit

/-- The text writes a number up to the limit: its digits, behind a plus sign or not. -/
def IsNumber (limit : Nat) (text : String) (n : Nat) : Prop :=
  ∃ digits, (text.toList = digits ∨ text.toList = '+' :: digits) ∧ Writes limit digits n

/-- A plus sign is no digit, so what it starts is not the digits of a number. -/
theorem not_writes_plus : ¬ Writes limit ('+' :: cs) n :=
  fun h => absurd (h.isDigit '+' List.mem_cons_self) (by decide)

/-- A number that is within the limit at its end was so from its first digit on. -/
theorem Number.readFrom_eq_ok_iff (hn : n ≤ limit) : Number.readFrom limit n cs = .ok m ↔
    (∀ c ∈ cs, c.isDigit = true) ∧ Nat.ofDigitChars 10 cs n = m ∧ m ≤ limit := by
  induction cs generalizing n with
  | nil =>
    rw [readFrom, Nat.ofDigitChars_nil, Except.ok.injEq]
    constructor
    · rintro rfl
      exact ⟨nofun, rfl, hn⟩
    · exact fun h => h.2.1
  | cons c cs ih =>
    -- The first digit decides whether the rest is looked at.
    rw [readFrom, digit?, Nat.ofDigitChars_cons, List.forall_mem_cons, Nat.mul_comm 10 n]
    cases hc : c.isDigit with
    | false => simp
    | true =>
      simp only [if_true, true_and]
      split
      · next hlarge =>
        -- What is too large stays too large with every digit that follows.
        refine iff_of_false nofun fun ⟨_, hvalue, hle⟩ => ?_
        have := le_ofDigitChars (n * 10 + (c.toNat - '0'.toNat)) cs
        omega
      · next hle => exact ih (Nat.le_of_not_lt hle)

/-- Digits are read to the number that they write. -/
theorem Number.readFrom_zero_iff (hne : cs ≠ []) :
    Number.readFrom limit 0 cs = .ok n ↔ Writes limit cs n := by
  rw [readFrom_eq_ok_iff (Nat.zero_le limit)]
  exact ⟨fun ⟨hdigits, hvalue, hle⟩ => ⟨hne, hdigits, hvalue, hle⟩,
    fun h => ⟨h.isDigit, h.value, h.le⟩⟩

/-- A text is read as a number when it writes one. -/
theorem Number.read_eq_ok_iff : Number.read limit text = .ok n ↔ IsNumber limit text n := by
  rw [read]
  split
  -- There is no text at all.
  · next hnil =>
    refine iff_of_false nofun ?_
    rintro ⟨ds, hds | hds, h⟩
    · exact h.ne_nil (hds.symm.trans hnil)
    · rw [hnil] at hds
      cases hds
  -- There is a plus sign and nothing behind it.
  · next hplus =>
    refine iff_of_false nofun ?_
    rintro ⟨ds, hds | hds, h⟩
    · rw [← hds, hplus] at h
      exact not_writes_plus h
    · rw [hplus] at hds
      exact h.ne_nil (List.cons.inj hds).2.symm
  -- There are digits behind a plus sign, and no number starts with a second one.
  · next digits hne hplus =>
    rw [readFrom_zero_iff hne]
    refine ⟨fun h => ⟨digits, .inr hplus, h⟩, ?_⟩
    rintro ⟨ds, hds | hds, h⟩
    · rw [← hds, hplus] at h
      exact absurd h not_writes_plus
    · rwa [(List.cons.inj (hplus.symm.trans hds)).2]
  -- There is no sign.
  · next hnil _ hplus =>
    rw [readFrom_zero_iff hnil]
    refine ⟨fun h => ⟨_, .inl rfl, h⟩, ?_⟩
    rintro ⟨ds, hds | hds, h⟩
    · rwa [hds]
    · exact absurd hds (hplus ds)

/-- The number that counts for a size: the one that is given, or the standard one. -/
def Size.Counts (size : Size) (lookup : String → Option String) (n : Nat) : Prop :=
  match given lookup size.name with
  | none => n = size.standard
  | some text => IsNumber size.limit text n

/-- A size is read to the number that counts for it. -/
theorem Size.read_eq_ok_iff {size : Size} : size.read lookup = .ok n ↔ size.Counts lookup n := by
  rw [read, Counts]
  cases given lookup size.name with
  -- Nothing is given, so the standard number counts.
  | none => exact ⟨fun h => (Except.ok.inj h).symm, fun h => congrArg Except.ok h.symm⟩
  | some text =>
    dsimp only
    rw [← Number.read_eq_ok_iff]
    -- What is given is a number, or it is refused.
    split
    · next hread => rw [hread, Except.ok.injEq, Except.ok.injEq]
    · next hread => rw [hread]; exact iff_of_false nofun nofun

/-- Sizes are refused if one of them is zero. -/
theorem refuseZero_eq_ok_iff {sizes : List (Size × Nat)} :
    refuseZero sizes = .ok () ↔ ∀ p ∈ sizes, p.2 ≠ 0 := by
  induction sizes with
  | nil => exact iff_of_true rfl nofun
  | cons p sizes ih =>
    rw [refuseZero, List.forall_mem_cons, ← ih]
    split
    · next hzero => exact iff_of_false nofun fun h => h.1 hzero
    · next hpos => exact (and_iff_right hpos).symm

/-! ### Settings -/

/-- What is given for the service that runs flows is read as a URL of the web. -/
theorem readOrchestrator_eq_ok_iff {url : Url} : readOrchestrator read lookup = .ok url ↔
    ∃ text, given lookup "ORCHESTRATOR_URL" = some text ∧ read text = .ok url ∧
      (url.scheme = "http" ∨ url.scheme = "https") := by
  rw [readOrchestrator]
  -- Nothing is given for the service, or it is read, or it is not.
  cases given lookup "ORCHESTRATOR_URL" with
  | none => exact iff_of_false nofun nofun
  | some text =>
    simp only [Option.some.injEq, exists_eq_left']
    cases read text with
    | error reason => exact iff_of_false nofun nofun
    | ok url' =>
      dsimp only
      split
      · next hweb =>
        rw [Except.ok.injEq, Except.ok.injEq]
        exact ⟨fun h => ⟨h, h ▸ hweb⟩, And.left⟩
      · next hother =>
        -- The URL would have to be the one that was read, whose scheme is none of the two.
        refine iff_of_false nofun fun ⟨heq, hweb⟩ => hother ?_
        rwa [Except.ok.inj heq]

/-- Job properties may be left out, but not given in a form that cannot be read. -/
theorem exists_readJobProperties_iff : (∃ ps, readJobProperties lookup = .ok ps) ↔
    ∀ text, given lookup "SCHEDULER_JOB_PROPERTIES" = some text →
      ∃ ps, JobProperties.parse text = .ok ps := by
  rw [readJobProperties]
  -- Left out, properties are none; given, they are read or refused.
  cases given lookup "SCHEDULER_JOB_PROPERTIES" with
  | none => exact iff_of_true ⟨∅, rfl⟩ nofun
  | some text =>
    simp only [Option.some.injEq, forall_eq']
    cases JobProperties.parse text with
    | error reason => exact iff_of_false nofun nofun
    | ok ps => exact iff_of_true ⟨ps, rfl⟩ ⟨ps, rfl⟩

/-- The settings of a node from what was read. -/
def assemble (lookup : String → Option String) (processId : String) (url : Url)
    (value : Size → Nat) (ps : Properties) : Settings where
  databaseUrl := given lookup "DATABASE_URL"
  redisUrl := given lookup "REDIS_URL"
  keyPrefix := (given lookup "SCHEDULER_REDIS_KEY_PREFIX").getD "tempora:scheduler"
  nodeId := (given lookup "SCHEDULER_NODE_ID").getD ("scheduler-" ++ processId)
  leaseSeconds := value .leaseSeconds
  renewalMillis := value .renewalMillis
  inboxMillis := value .inboxMillis
  runWorkers := value .runWorkers
  triggerWorkers := value .triggerWorkers
  orchestrator := url
  maxAttempts := value .maxAttempts
  backoffMillis := value .backoffMillis
  jobProperties := ps

/-- Numbers that a node can run with: only the pause between attempts may be zero, and a lease
    is renewed before it ends. -/
structure Workable (value : Size → Nat) : Prop where
  ne_zero : ∀ size, size ≠ .backoffMillis → value size ≠ 0
  renewal : value .renewalMillis < value .leaseSeconds * 1000

/-- When settings are accepted, and what they are. -/
theorem ofLookup_eq_ok_iff {s : Settings} : ofLookup read lookup processId = .ok s ↔
    ∃ url value ps, readOrchestrator read lookup = .ok url ∧
      (∀ size, Size.read size lookup = .ok (value size)) ∧ Workable value ∧
      readJobProperties lookup = .ok ps ∧ s = assemble lookup processId url value ps := by
  constructor
  -- The steps are taken back one by one: each of them gave something.
  · intro h
    rw [ofLookup] at h
    obtain ⟨url, hurl, h⟩ := bind_eq_ok.1 h
    obtain ⟨leaseSeconds, hleaseSeconds, h⟩ := bind_eq_ok.1 h
    obtain ⟨renewalMillis, hrenewalMillis, h⟩ := bind_eq_ok.1 h
    obtain ⟨inboxMillis, hinboxMillis, h⟩ := bind_eq_ok.1 h
    obtain ⟨runWorkers, hrunWorkers, h⟩ := bind_eq_ok.1 h
    obtain ⟨triggerWorkers, htriggerWorkers, h⟩ := bind_eq_ok.1 h
    obtain ⟨maxAttempts, hmaxAttempts, h⟩ := bind_eq_ok.1 h
    obtain ⟨backoffMillis, hbackoffMillis, h⟩ := bind_eq_ok.1 h
    obtain ⟨⟨⟩, hzero, h⟩ := bind_eq_ok.1 h
    dsimp only at h
    split at h
    · cases h
    -- Of the sizes only the pause is not checked for zero.
    · next hrenewal =>
      obtain ⟨ps, hps, h⟩ := bind_eq_ok.1 h
      rw [refuseZero_eq_ok_iff] at hzero
      simp only [List.forall_mem_cons] at hzero
      let value (size : Size) : Nat := size.casesOn leaseSeconds renewalMillis inboxMillis
        runWorkers triggerWorkers maxAttempts backoffMillis
      refine ⟨url, value, ps, hurl, fun size => by cases size <;> assumption,
        ⟨fun size hsize => ?_, Nat.lt_of_not_le hrenewal⟩, hps, (Except.ok.inj h).symm⟩
      cases size with
      | backoffMillis => exact absurd rfl hsize
      | _ => simp [value, hzero]
  -- The other way round, none of the steps refuses what it is given.
  · rintro ⟨url, value, ps, hurl, hread, hworks, hps, rfl⟩
    have hzero : refuseZero [(.leaseSeconds, value .leaseSeconds),
        (.renewalMillis, value .renewalMillis), (.inboxMillis, value .inboxMillis),
        (.runWorkers, value .runWorkers), (.triggerWorkers, value .triggerWorkers),
        (.maxAttempts, value .maxAttempts)] = .ok () :=
      refuseZero_eq_ok_iff.2 (by simp [hworks.ne_zero])
    simp only [ofLookup, hurl, hread, hzero, hps, ok_bind, if_neg (Nat.not_le.2 hworks.renewal)]
    rfl

/-- What is required of the texts of a node, and the numbers that count. -/
structure Acceptable (read : Url.Reader) (lookup : String → Option String) (value : Size → Nat) :
    Prop where
  orchestrator : ∃ text url, given lookup "ORCHESTRATOR_URL" = some text ∧
    read text = .ok url ∧ (url.scheme = "http" ∨ url.scheme = "https")
  counts : ∀ size, Size.Counts size lookup (value size)
  workable : Workable value
  jobProperties : ∀ text, given lookup "SCHEDULER_JOB_PROPERTIES" = some text →
    ∃ ps, JobProperties.parse text = .ok ps

/-- Settings are accepted when there are numbers with which they are acceptable. -/
theorem exists_ofLookup_iff :
    (∃ s, ofLookup read lookup processId = .ok s) ↔ ∃ value, Acceptable read lookup value := by
  simp only [ofLookup_eq_ok_iff]
  constructor
  · rintro ⟨_, url, value, ps, hurl, hread, hworks, hps, rfl⟩
    obtain ⟨text, htext, hparse, hscheme⟩ := readOrchestrator_eq_ok_iff.1 hurl
    exact ⟨value, ⟨text, url, htext, hparse, hscheme⟩,
      fun size => Size.read_eq_ok_iff.1 (hread size), hworks,
      exists_readJobProperties_iff.1 ⟨ps, hps⟩⟩
  · rintro ⟨value, ⟨text, url, htext, hparse, hscheme⟩, hcounts, hworks, hps⟩
    obtain ⟨ps, hps⟩ := exists_readJobProperties_iff.2 hps
    exact ⟨_, url, value, ps, readOrchestrator_eq_ok_iff.2 ⟨text, htext, hparse, hscheme⟩,
      fun size => Size.read_eq_ok_iff.2 (hcounts size), hworks, hps, rfl⟩

/-- Blank texts count as none, wherever a text is looked up. -/
theorem ofLookup_withoutBlank :
    ofLookup read (withoutBlank lookup) processId = ofLookup read lookup processId := by
  simp only [ofLookup, readOrchestrator, readJobProperties, Size.read, given_withoutBlank]

/-- The name of a node is never blank. -/
theorem isBlank_nodeId {s : Settings} (h : ofLookup read lookup processId = .ok s) :
    Text.isBlank s.nodeId = false := by
  obtain ⟨_, _, _, -, -, -, -, rfl⟩ := ofLookup_eq_ok_iff.1 h
  rw [assemble]
  cases hgiven : given lookup "SCHEDULER_NODE_ID" with
  -- The name was given, and what is given is not blank.
  | some name =>
    obtain ⟨raw, -, hblank, rfl⟩ := given_eq_some_iff.1 hgiven
    exact (Text.isBlank_trim raw).trans hblank
  -- The name is made up from the number of the process, and it starts with a letter.
  | none =>
    refine Bool.eq_false_iff.2 fun hblank => ?_
    have hfirst : 's' ∈ ("scheduler-" ++ processId).toList := by simp
    exact absurd (Text.isBlank_eq_true_iff.1 hblank 's' hfirst) (by decide)

/-- How a node with these settings takes part in elections. -/
def terms (s : Settings) : Leadership.Terms where
  holder := s.nodeId
  leaseSeconds := s.leaseSeconds

end Settings

/-! ### Requests for leases -/

namespace Leadership

open Lease

variable {s : Node.Setup} {t : Terms} {c : Candidate}

/-- The request is on the terms of the node: it names the scope and the holder, and it asks
    for the time of a lease. -/
def OnTerms (t : Terms) : Request → Prop
  | .acquire scope' holder seconds => scope' = scope ∧ holder = t.holder ∧ seconds = t.leaseSeconds
  | .renew _ seconds => seconds = t.leaseSeconds
  | .release _ => True

/-- A move adds one exchange at most, and its request is on the terms of the node. -/
theorem past_step (move : Candidate.Move) : (c.step s t move).past = c.past ∨
    ∃ x, (c.step s t move).past = x :: c.past ∧ OnTerms t x.request := by
  cases move with
  | wake | quit | work replies chore => exact .inl rfl
  | step replies answer =>
    obtain ⟨l, n, past⟩ := c
    cases l with
    -- No request belongs to these stages.
    | resting held | rising lease | falling lease | leaving lease | stopped => exact .inl rfl
    -- It asks for a lease, or to renew or release the one that it has.
    | acquiring => exact .inr ⟨_, rfl, rfl, rfl, rfl⟩
    | renewing lease =>
      simp only [Candidate.step, Loop.step, Candidate.recorder]
      split <;> exact .inr ⟨_, rfl, rfl⟩
    | releasing lease =>
      simp only [Candidate.step, Loop.step, Candidate.recorder]
      split <;> exact .inr ⟨_, rfl, trivial⟩

/-- All requests of a run are on the terms of the node. -/
theorem onTerms_run (h : ∀ x ∈ c.past, OnTerms t x.request) (moves : List Candidate.Move) :
    ∀ x ∈ (c.run s t moves).past, OnTerms t x.request := by
  refine List.foldlRecOn (motive := fun c : Candidate => ∀ x ∈ c.past, OnTerms t x.request)
    moves _ h fun c hc move _ x hx => ?_
  -- What is new is one exchange at most.
  rcases past_step (s := s) (t := t) (c := c) move with heq | ⟨y, heq, hy⟩
  · rw [heq] at hx
    exact hc x hx
  · rw [heq] at hx
    rcases List.mem_cons.1 hx with rfl | hmem
    · exact hy
    · exact hc x hmem

/-- A request on good terms is not refused. -/
theorem check_of_onTerms {r : Request} (hholder : Text.isBlank t.holder = false)
    (hseconds : t.leaseSeconds ≠ 0) (h : OnTerms t r) : r.check = .ok () := by
  have htime : checkSeconds t.leaseSeconds = .ok () := if_neg hseconds
  cases r with
  -- It names the scope, which is not blank, and the node, which is not blank either.
  | acquire scope' holder seconds =>
    obtain ⟨rfl, rfl, rfl⟩ := h
    have hscope : Text.isBlank scope = false := by decide
    rw [Request.check, hscope, hholder]
    exact htime
  | renew lease seconds =>
    obtain rfl : seconds = t.leaseSeconds := h
    exact htime
  | release lease => rfl

end Leadership

/-- Whoever serves a request from the store reports trouble of its own, but never that the
    request was invalid, unless it is refused. -/
theorem Lease.kind_of_serve {link : KeyStore.Link} {root unique : String} {r : Request}
    {k : KeyStore} {fault : Fault} (hr : r.check = .ok ())
    (h : (serve link root unique r k).2 = .error fault) : fault.kind ≠ .validation := by
  have hinternal (detail : String) : (Fault.internal detail).kind ≠ .validation := nofun
  -- Every command that the store answers in a way that was not expected is an internal fault.
  unfold serve at h
  simp only [hr] at h
  cases link with
  -- The store could not be reached.
  | down reason =>
    cases h
    nofun
  | up fate =>
    cases r with
    -- Setting the key may fail, or limiting its life.
    | acquire scope holder seconds =>
      dsimp only [acquire, take, limit] at h
      split at h
      · next htake =>
        split at htake <;> cases htake
        cases h
        exact hinternal _
      · cases h
      · split at h
        · cases h
        · next hlimit =>
          split at hlimit <;> cases hlimit
          cases h
          exact hinternal _
    | renew lease seconds =>
      dsimp only [renew] at h
      split at h <;> cases h
      exact hinternal _
    | release lease =>
      dsimp only [release] at h
      split at h <;> cases h
      exact hinternal _

namespace Settings

/-- Settings are accepted exactly when they are acceptable, whatever reads the URL and whatever
    the number of the process is; blank texts count as none.  On the terms of settings that were
    accepted, no request for a lease is refused: in all that a node exchanges with whoever grants
    leases, it names the scope of the scheduler and itself and asks for the time that was given,
    and the shared store never calls that invalid. -/
theorem accepted_iff (read : Url.Reader) (lookup : String → Option String) (processId : String) :
    ((∃ s, ofLookup read lookup processId = .ok s) ↔ ∃ value, Acceptable read lookup value) ∧
    ofLookup read (withoutBlank lookup) processId = ofLookup read lookup processId ∧
    ∀ s, ofLookup read lookup processId = .ok s →
      ∀ (setup : Node.Setup) (n : Node) (moves : List Leadership.Candidate.Move),
        ∀ x ∈ ((Leadership.Candidate.start n).run setup s.terms moves).past,
          Leadership.OnTerms s.terms x.request ∧ x.request.check = .ok () ∧
          ∀ (link : KeyStore.Link) (root unique : String) (k : KeyStore) (fault : Fault),
            (Lease.serve link root unique x.request k).2 = .error fault →
              fault.kind ≠ .validation := by
  refine ⟨exists_ofLookup_iff, ofLookup_withoutBlank, fun s hs setup n moves x hx => ?_⟩
  -- A lease is held for more than no time, as no size is zero.
  have hseconds : s.terms.leaseSeconds ≠ 0 := by
    obtain ⟨_, _, _, -, -, hworks, -, rfl⟩ := ofLookup_eq_ok_iff.1 hs
    exact hworks.ne_zero .leaseSeconds (by decide)
  -- From the start on, all requests are on these terms.
  have hterms := Leadership.onTerms_run (s := setup) (t := s.terms)
    (c := .start n) (fun x hx => absurd hx List.not_mem_nil) moves x hx
  have hcheck := Leadership.check_of_onTerms (isBlank_nodeId hs) hseconds hterms
  exact ⟨hterms, hcheck, fun _ _ _ _ _ => Lease.kind_of_serve hcheck⟩

/-- A reader of one URL. -/
private def engineReader : Url.Reader := fun text =>
  if text = "HTTP://engine:8080/runs" then .ok ⟨"http", "http://engine:8080/runs"⟩
  else .error "relative URL without a base"

/-- A node without a name that holds a lease for 30 seconds. -/
private def namelessNode (renewal name : String) : Option String :=
  if name = "ORCHESTRATOR_URL" then some " HTTP://engine:8080/runs "
  else if name = "SCHEDULER_LEASE_SECONDS" then some "+30"
  else if name = "SCHEDULER_LEASE_RENEW_INTERVAL_MS" then some renewal
  else if name = "SCHEDULER_NODE_ID" then some " "
  else none

/-- The lease may be renewed in the last millisecond, but not when it has ended. -/
theorem accepted_until_last_millisecond :
    (∃ value, Acceptable engineReader (namelessNode "29999") value) ∧
      ¬ ∃ value, Acceptable engineReader (namelessNode "30000") value := by
  -- One text is accepted and the other is not, which is read off both.
  have haccepted : (ofLookup engineReader (namelessNode "29999") "7").toOption.isSome = true := by
    decide +kernel
  have hrefused : (ofLookup engineReader (namelessNode "30000") "7").toOption = none := by
    decide +kernel
  rw [← (accepted_iff engineReader (namelessNode "29999") "7").1,
    ← (accepted_iff engineReader (namelessNode "30000") "7").1]
  constructor
  · obtain ⟨s, hs⟩ := Option.isSome_iff_exists.1 haccepted
    exact ⟨s, toOption_eq_some.1 hs⟩
  · rintro ⟨s, hs⟩
    rw [toOption_eq_some.2 hs] at hrefused
    cases hrefused

end Settings

end FlowCadence
