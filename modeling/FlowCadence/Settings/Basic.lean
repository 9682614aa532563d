import FlowCadence.Fault
import FlowCadence.Properties
import FlowCadence.Text.Split
/-! # Settings of a node

A node reads its settings from named texts.  White space around a text does not
count, and a blank text counts as none.  `Settings.ofLookup` takes the settings
that are there, puts defaults in the place of the others, and refuses what a node
could not run with. -/

/-! ## Numbers

A number in a setting is an optional plus sign and then decimal digits.  It is
read digit by digit up to a limit; the first character that is no digit, or the
first digit that leads past the limit, is what a refusal reports. -/

namespace FlowCadence.Settings

/-- Why a text is not a number within a limit. -/
inductive Number.Refusal where
  | noDigit
  | tooLarge
  deriving DecidableEq, Repr

/-- The words of a refusal. -/
def Number.Refusal.message : Number.Refusal → String
  | .noDigit => "invalid digit found in string"
  | .tooLarge => "number too large to fit in target type"

/-- The value of a decimal digit. -/
def Number.digit? (c : Char) : Option Nat :=
  if c.isDigit then some (c.toNat - '0'.toNat) else none

/-- The number that `n` and the digits behind it write. -/
def Number.readFrom (limit : Nat) (n : Nat) : List Char → Except Number.Refusal Nat
  | [] => .ok n
  | c :: cs =>
    match Number.digit? c with
    | none => .error .noDigit
    | some d => if limit < n * 10 + d then .error .tooLarge else readFrom limit (n * 10 + d) cs

/-- The number that a text writes, at most `limit`. -/
def Number.read (limit : Nat) (text : String) : Except Number.Refusal Nat :=
  match text.toList with
  | [] => .error .noDigit
  | ['+'] => .error .noDigit
  | '+' :: digits => Number.readFrom limit 0 digits
  | digits => Number.readFrom limit 0 digits

end FlowCadence.Settings

/-! ## Job properties

The properties that every job starts from are given in one text, as pairs
`key=value` with semicolons between them.  White space around keys and values
does not count, blank pieces are skipped, and of equal keys the last one counts.
`parse` reads such a text and `render` writes one. -/

namespace FlowCadence.Settings.JobProperties

/-- Why a piece of the text is refused. -/
inductive Refusal where
  /-- The piece has no equals sign. -/
  | noValue (piece : String)
  /-- There is nothing but white space before the equals sign. -/
  | noKey (piece : String)
  deriving DecidableEq, Repr

/-- The fault that a refusal is reported as. -/
def Refusal.fault : Refusal → Fault
  | .noValue p => .validation ("SCHEDULER_JOB_PROPERTIES entry '" ++ p ++ "' must be key=value")
  | .noKey p => .validation ("SCHEDULER_JOB_PROPERTIES entry '" ++ p ++ "' has an empty key")

/-- The pieces between semicolons, trimmed, without the blank ones. -/
def pieces (cs : List Char) : List (List Char) :=
  ((Text.splitOn (· = ';') cs).map Text.trimChars).filter fun p => !p.isEmpty

/-- The key and the value of a piece. -/
def pair (piece : List Char) : Except Refusal (String × String) :=
  match Text.cut '=' piece with
  | none => .error (.noValue (String.ofList piece))
  | some (key, value) =>
    let key := Text.trimChars key
    if key.isEmpty then .error (.noKey (String.ofList piece))
    else .ok (String.ofList key, String.ofList (Text.trimChars value))

/-- The properties that a text gives. -/
def parse (raw : String) : Except Refusal Properties := do
  let pairs ← (pieces raw.toList).mapM pair
  return pairs.foldl (fun ps (k, v) => ps.insert k v) ∅

/-- The text of pairs, in their order. -/
def render (pairs : List (String × String)) : String :=
  ";".intercalate (pairs.map fun (k, v) => k ++ "=" ++ v)

end FlowCadence.Settings.JobProperties

/-! ## Settings -/

namespace FlowCadence

/-- What is known of a URL: its scheme, and its text in normal form. -/
structure Url where
  scheme : String
  text : String
  deriving DecidableEq, Repr

/-- Whoever reads URLs: a text is one, or why it is none. -/
abbrev Url.Reader : Type := String → Except String Url

/-- What a node runs with. -/
structure Settings where
  databaseUrl : Option String
  redisUrl : Option String
  /-- What the keys of this installation begin with in a shared store. -/
  keyPrefix : String
  /-- The name under which the node holds a lease. -/
  nodeId : String
  leaseSeconds : Nat
  renewalMillis : Nat
  inboxMillis : Nat
  /-- How many immediate runs go on at the same time. -/
  runWorkers : Nat
  /-- How many firings go on at the same time. -/
  triggerWorkers : Nat
  /-- The service that runs flows. -/
  orchestrator : Url
  maxAttempts : Nat
  backoffMillis : Nat
  jobProperties : Properties
  deriving DecidableEq

namespace Settings

/-- The settings that are numbers. -/
inductive Size where
  | leaseSeconds
  | renewalMillis
  | inboxMillis
  | runWorkers
  | triggerWorkers
  | maxAttempts
  | backoffMillis
  deriving DecidableEq, Repr

/-- The name that a number is looked up under. -/
def Size.name : Size → String
  | .leaseSeconds => "SCHEDULER_LEASE_SECONDS"
  | .renewalMillis => "SCHEDULER_LEASE_RENEW_INTERVAL_MS"
  | .inboxMillis => "SCHEDULER_INBOX_POLL_INTERVAL_MS"
  | .runWorkers => "SCHEDULER_IMMEDIATE_RUN_WORKERS"
  | .triggerWorkers => "SCHEDULER_TRIGGER_WORKERS"
  | .maxAttempts => "ORCHESTRATOR_MAX_ATTEMPTS"
  | .backoffMillis => "ORCHESTRATOR_RETRY_BACKOFF_MS"

/-- The largest number that fits. -/
def Size.limit : Size → Nat
  | .leaseSeconds => Nat.pow 2 32 - 1
  | .maxAttempts => Nat.pow 2 8 - 1
  | .renewalMillis | .inboxMillis | .runWorkers | .triggerWorkers | .backoffMillis =>
    Nat.pow 2 64 - 1

/-- The number that counts when none is given. -/
def Size.standard : Size → Nat
  | .leaseSeconds => 30
  | .renewalMillis => 10000
  | .inboxMillis => 1000
  | .runWorkers => 4
  | .triggerWorkers => 8
  | .maxAttempts => 3
  | .backoffMillis => 250

/-- Why settings are refused. -/
inductive Refusal where
  | noOrchestrator
  | orchestrator (text reason : String)
  | scheme (scheme : String)
  | size (size : Size) (text : String) (reason : Number.Refusal)
  | zero (size : Size)
  | slowRenewal
  | jobProperties (reason : JobProperties.Refusal)
  deriving DecidableEq, Repr

/-- The fault that a refusal is reported as. -/
def Refusal.fault : Refusal → Fault
  | .noOrchestrator => .validation "ORCHESTRATOR_URL is required"
  | .orchestrator text reason => .validation
      ("invalid ORCHESTRATOR_URL '" ++ text ++ "': " ++ reason)
  | .scheme s => .validation ("ORCHESTRATOR_URL must use http or https, got '" ++ s ++ "'")
  | .size s text reason => .validation
      ("invalid " ++ s.name ++ " value '" ++ text ++ "': " ++ reason.message)
  | .zero s => .validation (s.name ++ " must be greater than zero")
  | .slowRenewal => .validation "SCHEDULER_LEASE_RENEW_INTERVAL_MS must be shorter than the lease"
  | .jobProperties reason => reason.fault

/-- The text given under a name, trimmed; a blank one counts as none. -/
def given (lookup : String → Option String) (name : String) : Option String :=
  ((lookup name).map Text.trim).filter fun t => !t.isEmpty

/-- The number given for a size, or the standard one. -/
def Size.read (size : Size) (lookup : String → Option String) : Except Refusal Nat :=
  match given lookup size.name with
  | none => .ok size.standard
  | some text =>
    match Number.read size.limit text with
    | .ok n => .ok n
    | .error reason => .error (.size size text reason)

/-- The address given for the service that runs flows: a URL of one of the two protocols that
    requests are made over. -/
def readOrchestrator (read : Url.Reader) (lookup : String → Option String) :
    Except Refusal Url :=
  match given lookup "ORCHESTRATOR_URL" with
  | none => .error .noOrchestrator
  | some text =>
    match read text with
    | .ok url =>
      if url.scheme = "http" ∨ url.scheme = "https" then .ok url else .error (.scheme url.scheme)
    | .error reason => .error (.orchestrator text reason)

/-- The properties given for every job. -/
def readJobProperties (lookup : String → Option String) : Except Refusal Properties :=
  match given lookup "SCHEDULER_JOB_PROPERTIES" with
  | none => .ok ∅
  | some text => (JobProperties.parse text).mapError .jobProperties

/-- Refuses the first of the sizes that is zero. -/
def refuseZero : List (Size × Nat) → Except Refusal Unit
  | [] => .ok ()
  | (size, n) :: sizes => if n = 0 then .error (.zero size) else refuseZero sizes

/-- The settings of a node: `read` reads URLs, `lookup` gives the named texts, and `processId` is
    the number that a node without a name of its own is named by. -/
def ofLookup (read : Url.Reader) (lookup : String → Option String) (processId : String) :
    Except Refusal Settings := do
  let orchestrator ← readOrchestrator read lookup
  let leaseSeconds ← Size.leaseSeconds.read lookup
  let renewalMillis ← Size.renewalMillis.read lookup
  let inboxMillis ← Size.inboxMillis.read lookup
  let runWorkers ← Size.runWorkers.read lookup
  let triggerWorkers ← Size.triggerWorkers.read lookup
  let maxAttempts ← Size.maxAttempts.read lookup
  let backoffMillis ← Size.backoffMillis.read lookup
  refuseZero [(.leaseSeconds, leaseSeconds), (.renewalMillis, renewalMillis),
    (.inboxMillis, inboxMillis), (.runWorkers, runWorkers), (.triggerWorkers, triggerWorkers),
    (.maxAttempts, maxAttempts)]
  if leaseSeconds * 1000 ≤ renewalMillis then throw .slowRenewal
  let jobProperties ← readJobProperties lookup
  return {
    databaseUrl := given lookup "DATABASE_URL"
    redisUrl := given lookup "REDIS_URL"
    keyPrefix := (given lookup "SCHEDULER_REDIS_KEY_PREFIX").getD "tempora:scheduler"
    nodeId := (given lookup "SCHEDULER_NODE_ID").getD ("scheduler-" ++ processId)
    leaseSeconds, renewalMillis, inboxMillis, runWorkers, triggerWorkers, orchestrator
    maxAttempts, backoffMillis, jobProperties }

end Settings

end FlowCadence
