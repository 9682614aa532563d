import FlowCadence.KeyStore
import FlowCadence.Notice.Basic
import FlowCadence.Spec.Json
/-! # The channel to the controller

A notice is written as a JSON object of four members.  The reader takes them in any
order, ignores members it does not know without looking into them, and also
takes an array of exactly the four fields.  A named choice may also be written
as an object from that name to null.

Notices travel through a list in the shared store: every node pushes to it, and the
controller pops from it.  A text that lies in the list and is no notice is dropped on
its way out.  Entries are taken in as texts, though, and all of one answer together: an
entry that is no text spoils the answer that it comes in. -/

/-! ## Notices as JSON -/

namespace FlowCadence.Notice

/-- The name that a choice is written by. -/
def choice? : Json → Option String
  | .string t => t
  | .object [(some name, .null)] => some name
  | _ => none

/-- A notice as an object. -/
def toJson (n : Notice) : Json :=
  .object
    [(some "message_type", .string (some n.kind.label)),
     (some "payload", .string (some n.payload)),
     (some "correlation_id", .string (some n.id.text)),
     (some "target_role", .string (some addressee))]

/-- The compact JSON text of a notice. -/
def encode (n : Notice) : String := n.toJson.print

/-- A notice from its fields in order. -/
def ofFields? (kind payload id role : Json) : Option Notice := do
  let kind ← (choice? kind).bind Kind.ofLabel?
  let payload ← payload.text?
  let id ← id.text?.bind Identifier.ofText?
  let role ← choice? role
  if role = addressee then some ⟨kind, payload, id⟩ else none

/-- The notice that a value describes. -/
def ofJson? : Json → Option Notice
  | .object ms => do
    if ms.any fun m => m.1.isNone then none
    let kind ← Json.requiredField? "message_type" ms
    let payload ← Json.requiredField? "payload" ms
    let id ← Json.requiredField? "correlation_id" ms
    let role ← Json.requiredField? "target_role" ms
    ofFields? kind payload id role
  | .array [kind, payload, id, role] => ofFields? kind payload id role
  | _ => none

/-- The notice that a JSON text describes. -/
def decode (s : String) : Option Notice := (Json.read s).bind ofJson?

/-! ## Sending and receiving -/

/-- The key of the channel. -/
def channelKey (root : String) : String := root ++ ":controller:inbox"

/-- Sends a notice. -/
def send (link : KeyStore.Link) (root : String) (n : Notice) (k : KeyStore) :
    KeyStore × Except Fault Unit :=
  match link with
  | .down reason => (k, .error (KeyStore.unreachable reason))
  | .up fate =>
    match KeyStore.send fate (.push (channelKey root) n.encode) k with
    | (k, .ok _) => (k, .ok ())
    | (k, .error reason) =>
      (k, .error (.unavailable ("failed to push controller message: " ++ reason)))

/-- What came out of the channel. -/
structure Received where
  notices : List Notice
  /-- How many entries were dropped. -/
  dropped : Nat
  deriving DecidableEq

/-- The notices among texts. -/
def ofTexts (ts : List String) : Received :=
  ⟨ts.filterMap Notice.decode, ts.countP fun t => (Notice.decode t).isNone⟩

/-- The notice that an entry of the channel holds. -/
def ofEntry (e : KeyStore.Entry) : Option Notice := e.text?.bind decode

/-- The fault of a channel that cannot be popped from. -/
def notPopped (reason : String) : Fault :=
  .unavailable ("failed to pop controller messages: " ++ reason)

/-- Receives up to `limit` entries.  They are gone from the channel as soon as the store has
    popped them, whether they can be taken in or not. -/
def receive (link : KeyStore.Link) (root : String) (limit : Nat) (k : KeyStore) :
    KeyStore × Except Fault Received :=
  if limit = 0 then (k, .ok ⟨[], 0⟩)
  else
    match link with
    | .down reason => (k, .error (KeyStore.unreachable reason))
    | .up fate =>
      match KeyStore.send fate (.pop (channelKey root) limit) k with
      | (k, .ok (.entries es)) =>
        match es.mapM KeyStore.Entry.text? with
        | some ts => (k, .ok (ofTexts ts))
        | none => (k, .error (notPopped "invalid utf-8"))
      | (k, .ok _) => (k, .ok ⟨[], 0⟩)
      | (k, .error reason) => (k, .error (notPopped reason))

end FlowCadence.Notice
