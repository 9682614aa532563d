import FlowCadence.Properties
import FlowCadence.Text.Basic
/-! # Specs

What a catalog publishes: flows, which can be scheduled and run, and
topologies, which are carried along and never scheduled.  Both have a uri and a
version, neither of them blank. -/

namespace FlowCadence

/-- A named, versioned unit of work that can be scheduled. -/
structure Flow where
  uri : Label
  version : Label
  description : Option String
  properties : Properties
  deriving DecidableEq

/-- A description of the machines that flows run on. -/
structure Topology where
  uri : Label
  version : Label
  description : Option String
  deriving DecidableEq

/-- What a catalog holds under a uri. -/
inductive Spec where
  | flow (f : Flow)
  | topology (t : Topology)
  deriving DecidableEq

/-- The flow with these parts; a blank uri or version is a fault, a blank
    description is dropped. -/
def Flow.make (uri version : String) (description : Option String)
    (properties : Properties) : Except Fault Flow := do
  let uri ← Label.ofText uri
  let version ← Label.ofText version
  return ⟨uri, version, description.filter fun d => !Text.isBlank d, properties⟩

/-- The topology with these parts; a blank uri or version is a fault. -/
def Topology.make (uri version : String) (description : Option String) :
    Except Fault Topology := do
  let uri ← Label.ofText uri
  let version ← Label.ofText version
  return ⟨uri, version, description⟩

/-- The two kinds of specs. -/
inductive Spec.Kind where
  | flow
  | topology
  deriving DecidableEq, Repr

/-- The name a kind is stored and written under. -/
def Spec.Kind.label : Spec.Kind → String
  | .flow => "flow"
  | .topology => "topology"

/-- The kind stored under a name. -/
def Spec.Kind.ofLabel? (s : String) : Option Spec.Kind :=
  if s = "flow" then some .flow else if s = "topology" then some .topology else none

namespace Spec

/-- The uri a spec is kept under. -/
def uri : Spec → String
  | .flow f => f.uri.text
  | .topology t => t.uri.text

/-- The version of a spec. -/
def version : Spec → String
  | .flow f => f.version.text
  | .topology t => t.version.text

/-- The description of a spec, if it has one. -/
def description : Spec → Option String
  | .flow f => f.description
  | .topology t => t.description

/-- The kind of a spec. -/
def kind : Spec → Kind
  | .flow _ => .flow
  | .topology _ => .topology

/-- The flow, when the spec is one. -/
def flow? : Spec → Option Flow
  | .flow f => some f
  | .topology _ => none

/-- How a spec is named in reports: kind, uri and version. -/
def display (s : Spec) : String := s.kind.label ++ ":" ++ s.uri ++ "/" ++ s.version

end Spec

/-- The label of a kind is read as that kind. -/
@[simp] theorem Spec.Kind.ofLabel?_label (k : Spec.Kind) : ofLabel? k.label = some k := by
  cases k <;> decide

/-- No other text is. -/
theorem Spec.Kind.ofLabel?_eq_some_iff {label : String} {k : Spec.Kind} :
    ofLabel? label = some k ↔ label = k.label := by
  constructor
  · intro h
    rw [ofLabel?] at h
    split at h
    · next heq =>
      cases h
      exact heq
    · split at h
      · next heq =>
        cases h
        exact heq
      · cases h
  · rintro rfl
    exact ofLabel?_label k

end FlowCadence
