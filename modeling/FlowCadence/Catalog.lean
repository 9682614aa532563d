import FlowCadence.Properties
import FlowCadence.Spec.Basic
/-! # The catalog

The catalog keeps one spec under each uri.  Putting and deleting a spec is
announced to the listeners, in the order in which they registered; removing one is
not, so that a listener may clear up behind a deletion without hearing of it.

* `getElem?_put`     a put spec is found under its uri, and nothing else changes
* `getElem?_remove`  a removed spec is gone, and nothing else changes -/

namespace FlowCadence

/-- What listeners are told of. -/
inductive Catalog.Change where
  | added (spec : Spec)
  | updated (spec : Spec)
  | deleted (uri version : String)
  deriving DecidableEq

/-- The specs by uri, and the names of the listeners. -/
structure Catalog where
  specs : Table Spec
  listeners : List String
  deriving DecidableEq

namespace Catalog

/-- A change as one listener is told of it. -/
abbrev Delivery := String × Change

/-- The catalog without specs and listeners. -/
def empty : Catalog := ⟨∅, []⟩

/-- The catalog with one more listener. -/
def listen (c : Catalog) (name : String) : Catalog := { c with listeners := c.listeners ++ [name] }

/-- The spec under a uri. -/
def get? (c : Catalog) (uri : String) : Option Spec := c.specs[uri]?

/-- The specs in ascending order of their uris. -/
def list (c : Catalog) : List Spec := c.specs.toList.map (·.2)

/-- The catalog with a spec under its uri, and the change to announce. -/
def put (c : Catalog) (spec : Spec) : Catalog × Change :=
  ({ c with specs := c.specs.insert spec.uri spec },
    if c.specs.contains spec.uri then .updated spec else .added spec)

/-- The catalog without the spec under a uri. -/
def remove (c : Catalog) (uri : String) : Catalog := { c with specs := c.specs.erase uri }

/-- The catalog without the spec under a uri, and the change to announce if there
    was one. -/
def delete (c : Catalog) (uri : String) : Catalog × Option Change :=
  (c.remove uri, (c.get? uri).map fun spec => .deleted spec.uri spec.version)

/-- The change as each listener is told of it. -/
def deliveries (c : Catalog) (change : Change) : List Delivery :=
  c.listeners.map fun name => (name, change)

/-- What can be done with a catalog. -/
inductive Action where
  | listen (name : String)
  | put (spec : Spec)
  | delete (uri : String)
  | remove (uri : String)
  deriving DecidableEq

/-- The catalog after an action, and what the listeners are told. -/
def act (c : Catalog) : Action → Catalog × List Delivery
  | .listen name => (c.listen name, [])
  | .put spec =>
    let (d, change) := c.put spec
    (d, d.deliveries change)
  | .delete uri =>
    let (d, change?) := c.delete uri
    (d, (change?.map d.deliveries).getD [])
  | .remove uri => (c.remove uri, [])

@[simp] theorem get?_empty (uri : String) : empty.get? uri = none := by
  simp [get?, empty]

@[simp] theorem list_empty : empty.list = [] := by
  rw [list, List.map_eq_nil_iff, Std.ExtTreeMap.toList_eq_nil_iff]
  rfl

/-- A spec that is put is found under its uri. -/
theorem getElem?_put (c : Catalog) (spec : Spec) (uri : String) :
    (c.put spec).1.get? uri = if spec.uri = uri then some spec else c.get? uri := by
  simp [put, get?, Std.ExtTreeMap.getElem?_insert]

/-- Nothing is found under a uri that is removed. -/
theorem getElem?_remove (c : Catalog) (removed uri : String) :
    (c.remove removed).get? uri = if removed = uri then none else c.get? uri := by
  simp [remove, get?, Std.ExtTreeMap.getElem?_erase]

end Catalog

end FlowCadence
