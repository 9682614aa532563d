import FlowCadence.Json.Reader
import FlowCadence.Json.Value
import FlowCadence.Spec.Basic
/-! # Specs as JSON

A spec is written as an object that begins with its kind.  The reader takes the
members in any order, ignores members it does not know, and also takes an array
that begins with the kind and has exactly the fields of that kind.  A field that
is known may stand once. -/

namespace FlowCadence

/-! ## Writing -/

/-- A text or null. -/
def Json.ofText? : Option String → Json
  | some s => .string (some s)
  | none => .null

/-- An object of texts, in ascending order of its names. -/
def Properties.toJson (ps : Properties) : Json :=
  .object (ps.toList.map fun (k, v) => (some k, .string (some v)))

namespace Spec

/-- A spec as an object: kind, uri, version, description, and for a flow its
    properties. -/
def toJson : Spec → Json
  | .flow f => .object
      [(some "kind", .string (some "flow")),
       (some "uri", .string (some f.uri.text)),
       (some "version", .string (some f.version.text)),
       (some "description", .ofText? f.description),
       (some "properties", f.properties.toJson)]
  | .topology t => .object
      [(some "kind", .string (some "topology")),
       (some "uri", .string (some t.uri.text)),
       (some "version", .string (some t.version.text)),
       (some "description", .ofText? t.description)]

/-- The compact JSON text of a spec. -/
def encode (s : Spec) : String := s.toJson.print

end Spec

/-! ## Reading -/

namespace Json

/-- The text of a string. -/
def text? : Json → Option String
  | .string t => t
  | _ => none

/-- A text, or nothing for null. -/
def optionalText? : Json → Option (Option String)
  | .null => some none
  | .string (some s) => some (some s)
  | _ => none

/-- The label that a string holds. -/
def label? (j : Json) : Option Label := j.text?.bind Label.ofText?

/-- The properties that the members spell; of members with one name the last
    counts. -/
def memberProperties? : List (Str × Json) → Properties → Option Properties
  | [], ps => some ps
  | (some k, .string (some v)) :: ms, ps => memberProperties? ms (ps.insert k v)
  | _ :: _, _ => none

/-- The properties that an object of texts holds. -/
def properties? : Json → Option Properties
  | .object ms => memberProperties? ms ∅
  | _ => none

/-- The value of the field `name`: none when two members have that name, and
    `some none` when no member has it. -/
def field? (name : String) (ms : List (Str × Json)) : Option (Option Json) :=
  match ms.filter fun m => m.1 = some name with
  | [] => some none
  | [m] => some (some m.2)
  | _ => none

/-- The value of the field `name`, which has to be there, once. -/
def requiredField? (name : String) (ms : List (Str × Json)) : Option Json :=
  (field? name ms).join

end Json

namespace Spec

/-- A flow from its fields in order. -/
def flowOfFields? (uri version : Json) (description : Option Json) (properties : Json) :
    Option Flow := do
  let uri ← uri.label?
  let version ← version.label?
  let description ← description.elim (some none) Json.optionalText?
  let properties ← properties.properties?
  return ⟨uri, version, description, properties⟩

/-- A topology from its fields in order. -/
def topologyOfFields? (uri version : Json) (description : Option Json) : Option Topology := do
  let uri ← uri.label?
  let version ← version.label?
  let description ← description.elim (some none) Json.optionalText?
  return ⟨uri, version, description⟩

/-- The spec that a value describes.  A description may be missing from an
    object, but not from an array. -/
def ofJson? : Json → Option Spec
  | .object ms => do
    let kind ← (← Json.requiredField? "kind" ms).text?
    let uri ← Json.field? "uri" ms
    let version ← Json.field? "version" ms
    let description ← Json.field? "description" ms
    match Kind.ofLabel? kind with
    | some .flow =>
      let properties ← Json.requiredField? "properties" ms
      return .flow (← flowOfFields? (← uri) (← version) description properties)
    | some .topology => return .topology (← topologyOfFields? (← uri) (← version) description)
    | none => none
  | .array [.string (some kind), uri, version, description] =>
    if kind = Kind.topology.label then
      (topologyOfFields? uri version (some description)).map .topology
    else none
  | .array [.string (some kind), uri, version, description, properties] =>
    if kind = Kind.flow.label then
      (flowOfFields? uri version (some description) properties).map .flow
    else none
  | _ => none

/-- The deepest nesting that is read. -/
def maxDepth : Nat := 127

/-- The spec that a JSON text describes, or none when the text is not JSON, goes
    beyond the limits on nesting and numbers, or describes no spec. -/
def decode (s : String) : Option Spec := do
  let j ← Json.read s
  if j.plainWithin maxDepth then ofJson? j else none

end Spec

/-- The label that a JSON text holds as a string. -/
def Label.decode (s : String) : Option Label := (Json.read s).bind Json.label?

/-- The JSON text of a label. -/
def Label.encode (l : Label) : String := (Json.string (some l.text)).print

end FlowCadence

/-! ## Stored rows

A row of a durable catalog holds a spec column by column, the kind by its label
and the properties as a JSON object.  `Row.ofSpec` is the row that is written
for a spec and `Row.toSpec` what a row is read as. -/

namespace FlowCadence.Spec

/-- One stored spec. -/
structure Row where
  uri : String
  version : String
  kind : String
  description : Option String
  properties : Json

namespace Row

/-- The row written for a spec; a topology has no properties. -/
def ofSpec (s : Spec) : Row where
  uri := s.uri
  version := s.version
  kind := s.kind.label
  description := s.description
  properties := match s with
    | .flow f => f.properties.toJson
    | .topology _ => .object []

/-- The spec a row holds.  The kind is looked at first, then a flow's
    properties, then uri and version. -/
def toSpec (r : Row) : Except Fault Spec :=
  match Kind.ofLabel? r.kind with
  | some .flow =>
    match r.properties.properties? with
    | some ps => (Flow.make r.uri r.version r.description ps).map .flow
    | none => .error (.internal
        ("stored properties for flow '" ++ r.uri ++ "' are invalid: not an object of texts"))
  | some .topology => (Topology.make r.uri r.version r.description).map .topology
  | none => .error (.internal ("unknown stored spec kind '" ++ r.kind ++ "'"))

end Row

end FlowCadence.Spec
