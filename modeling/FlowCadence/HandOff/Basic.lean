import FlowCadence.Alert
import FlowCadence.Notice.Basic
import FlowCadence.Spec.Json
/-! # Handing flows off

The service that runs flows is handed a flow by a request over the web.  A request
that meets passing trouble (the service is busy or in trouble itself, or the
connection fails) is repeated, after pauses that grow from attempt to attempt, up to
a number of attempts.  The requests of one hand-off are all the same and carry one
key, so that the service can tell a repetition from a second run.

* `Policy.attempts_pos`  there is always a first attempt
* `toNat_countOn`        the count of attempts goes on as long as one is left -/

/-! ## Status codes -/

namespace FlowCadence.HandOff

/-- The status code of an answer. -/
structure Status where
  code : Nat
  deriving DecidableEq, Repr

namespace Status

/-- The request was accepted. -/
def isSuccess (s : Status) : Bool := decide (200 ≤ s.code) && decide (s.code < 300)

/-- The service had trouble of its own. -/
def isServerError (s : Status) : Bool := decide (500 ≤ s.code) && decide (s.code < 600)

/-- The service asks for fewer requests. -/
def tooManyRequests : Status := ⟨429⟩

/-- The words that stand beside the registered codes. -/
def registered : List (Nat × String) :=
  [(100, "Continue"), (101, "Switching Protocols"), (102, "Processing"), (103, "Early Hints"),
   (200, "OK"), (201, "Created"), (202, "Accepted"), (203, "Non Authoritative Information"),
   (204, "No Content"), (205, "Reset Content"), (206, "Partial Content"), (207, "Multi-Status"),
   (208, "Already Reported"), (226, "IM Used"), (300, "Multiple Choices"),
   (301, "Moved Permanently"), (302, "Found"), (303, "See Other"), (304, "Not Modified"),
   (305, "Use Proxy"), (307, "Temporary Redirect"), (308, "Permanent Redirect"),
   (400, "Bad Request"), (401, "Unauthorized"), (402, "Payment Required"), (403, "Forbidden"),
   (404, "Not Found"), (405, "Method Not Allowed"), (406, "Not Acceptable"),
   (407, "Proxy Authentication Required"), (408, "Request Timeout"), (409, "Conflict"),
   (410, "Gone"), (411, "Length Required"), (412, "Precondition Failed"),
   (413, "Payload Too Large"), (414, "URI Too Long"), (415, "Unsupported Media Type"),
   (416, "Range Not Satisfiable"), (417, "Expectation Failed"), (418, "I'm a teapot"),
   (421, "Misdirected Request"), (422, "Unprocessable Entity"), (423, "Locked"),
   (424, "Failed Dependency"), (425, "Too Early"), (426, "Upgrade Required"),
   (428, "Precondition Required"), (429, "Too Many Requests"),
   (431, "Request Header Fields Too Large"), (451, "Unavailable For Legal Reasons"),
   (500, "Internal Server Error"), (501, "Not Implemented"), (502, "Bad Gateway"),
   (503, "Service Unavailable"), (504, "Gateway Timeout"), (505, "HTTP Version Not Supported"),
   (506, "Variant Also Negotiates"), (507, "Insufficient Storage"), (508, "Loop Detected"),
   (510, "Not Extended"), (511, "Network Authentication Required")]

/-- A code and its words. -/
def text (s : Status) : String :=
  let words := (registered.find? fun e => e.1 = s.code).map (·.2)
  toString s.code ++ " " ++ words.getD "<unknown status code>"

end Status

end FlowCadence.HandOff

/-! ## Attempts -/

namespace FlowCadence

namespace HandOff

/-- How often and how patiently a flow is handed off. -/
structure Policy where
  attempts : UInt8
  /-- The pause after the first attempt, in milliseconds. -/
  backoff : UInt64
  attempts_pos : 0 < attempts
  deriving Repr

/-- The policy for given numbers: one attempt at least, and no pause under 50
    milliseconds. -/
def Policy.ofNumbers (attempts : UInt8) (backoff : UInt64) : Policy where
  attempts := max 1 attempts
  backoff := max 50 backoff
  attempts_pos := by
    show 0 < if 1 ≤ attempts then attempts else 1
    split
    · next h => exact UInt8.lt_of_lt_of_le (by decide) h
    · decide

/-- The longest pause. -/
def longestPause : Nat := Nat.pow 2 64 - 1

/-- The pause after an attempt, which grows up to the longest one: attempts count
    from one. -/
def Policy.pause (p : Policy) (attempt : Nat) : Nat :=
  min (p.backoff.toNat * attempt) longestPause

/-- The number of the next attempt; a count that is full stays as it is. -/
def countOn (attempt : UInt8) : UInt8 := if attempt = 255 then attempt else attempt + 1

/-- As long as an attempt is left, the count is not full. -/
theorem toNat_countOn {attempt limit : UInt8} (h : attempt < limit) :
    (countOn attempt).toNat = attempt.toNat + 1 := by
  have hlt : attempt.toNat < limit.toNat := UInt8.lt_iff_toNat_lt.1 h
  have hlimit : limit.toNat < 256 := limit.toNat_lt
  have hne : attempt ≠ 255 := by
    rintro rfl
    have hfull : (255 : UInt8).toNat = 255 := rfl
    omega
  rw [countOn, if_neg hne, UInt8.toNat_add, UInt8.toNat_one]
  omega

/-- A request to run a flow. -/
structure Request where
  /-- The header that names the flow. -/
  flowHeader : String
  /-- The header by which repetitions are recognised. -/
  key : String
  contentType : String
  body : String
  deriving DecidableEq, Repr

/-- What a request tells of a flow, under the identifier of its execution. -/
def bodyOf (f : Flow) (id : Identifier) : Json :=
  .object [
    (some "execution_id", .string (some id.text)),
    (some "flow_uri", .string (some f.uri.text)),
    (some "flow_version", .string (some f.version.text)),
    (some "description", .ofText? f.description),
    (some "properties", f.properties.toJson)]

/-- The request to run a flow. -/
def requestFor (f : Flow) (id : Identifier) : Request where
  flowHeader := f.uri.text
  key := id.text
  contentType := "application/json"
  body := (bodyOf f id).print

/-- Whether a text can stand in a header: it holds no control characters other than
    tabs. -/
def fitsHeader (s : String) : Bool :=
  s.toList.all fun c => c = '\t' || (decide (0x20 ≤ c.toNat) && c != '\x7f')

/-- How a request is answered. -/
inductive Reply where
  /-- With a status, and a body unless that could not be read. -/
  | status (status : Status) (body : Option String)
  /-- Not at all, for this reason. -/
  | broken (reason : String)
  deriving DecidableEq, Repr

/-- What a reply means. -/
inductive Verdict where
  | accepted
  | rejected (fault : Fault)
  /-- Passing trouble. -/
  | trouble (problem : String)
  deriving DecidableEq, Repr

/-- What a reply means for a flow. -/
def Reply.verdict (f : Flow) : Reply → Verdict
  | .status s body =>
    if s.isSuccess then .accepted
    else if s.isServerError || s = .tooManyRequests then
      .trouble ("transient HTTP status " ++ s.text ++ " running flow '" ++ f.uri.text ++ "'")
    else .rejected (.validation ("execution engine rejected flow '" ++ f.uri.text ++
      "' with status " ++ s.text ++ ": " ++ body.getD "<response body unavailable>"))
  | .broken reason => .trouble ("execution engine transport error: " ++ reason)

/-- What a hand-off did. -/
structure Record where
  result : Except Fault Unit
  /-- The requests in their order. -/
  requests : List Request
  /-- The pauses between them, in milliseconds. -/
  pauses : List Nat
  alerts : List Alert

/-- The record of a hand-off that ends with one request. -/
def Record.last (result : Except Fault Unit) (r : Request) : Record := ⟨result, [r], [], []⟩

/-- The record of a hand-off without any attempt left, after what the last one met
    with. -/
def Record.exhausted (problem : Option String) : Record :=
  ⟨.error (.unavailable (problem.getD "execution engine hand-off exhausted retries")), [], [], []⟩

/-- The record of a hand-off that begins with a request. -/
def Record.behind (r : Request) (rest : Record) : Record :=
  { rest with requests := r :: rest.requests }

/-- The record of a hand-off that begins with a pause because of a problem. -/
def Record.afterPause (pause : Nat) (problem : String) (rest : Record) : Record :=
  { rest with
    pauses := pause :: rest.pauses
    alerts := .handOffRetried problem :: rest.alerts }

/-- The attempts behind number `attempt`; `problem` is what that one met with.  The
    reply to an attempt goes by its number. -/
def attemptsAfter (p : Policy) (f : Flow) (r : Request) (replies : Nat → Reply) (attempt : UInt8)
    (problem : Option String) : Record :=
  if _h : attempt < p.attempts then
    let next := countOn attempt
    match (replies next.toNat).verdict f with
    | .accepted => .last (.ok ()) r
    | .rejected fault => .last (.error fault) r
    | .trouble problem =>
      let rest := attemptsAfter p f r replies next (some problem)
      if next < p.attempts then .behind r (.afterPause (p.pause next.toNat) problem rest)
      else .behind r rest
  else .exhausted problem
termination_by p.attempts.toNat - attempt.toNat
decreasing_by
  have hlt : attempt.toNat < p.attempts.toNat := UInt8.lt_iff_toNat_lt.1 _h
  rw [toNat_countOn _h]
  omega

end HandOff

/-- Hands a flow off under the identifier of its execution.  A flow whose uri cannot
    stand in a header is not even sent, and every attempt is in vain. -/
def handOff (p : HandOff.Policy) (f : Flow) (id : Identifier) (replies : Nat → HandOff.Reply) :
    HandOff.Record :=
  let r := HandOff.requestFor f id
  if HandOff.fitsHeader r.flowHeader then HandOff.attemptsAfter p f r replies 0 none
  else
    let unsent (_ : Nat) : HandOff.Reply := .broken "builder error"
    { HandOff.attemptsAfter p f r unsent 0 none with requests := [] }

end FlowCadence
