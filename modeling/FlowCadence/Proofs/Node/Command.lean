import FlowCadence.Proofs.Node.Effect
/-! # What commands come to

Equations for a node that carries out a command without a break, stage by stage put
together.  Records of what listeners are told are left open, since they touch nothing
but the trace.

## Key results

* `obey_put`, `obey_delete_of_some`, `obey_delete_of_none`: changes of the catalog
* `obey_notice_of_standby`, `obey_added`, `obey_removed`: notices -/

namespace FlowCadence.Node

variable {s : Setup} {n : Node}

/-- Telling listeners touches nothing but the trace. -/
theorem performWithin_tell (s : Setup) (change : Catalog.Change) (others : List String)
    (fuel : Nat) (n : Node) :
    ∃ trace, (Activity.tell change others).performWithin s id (fuel + 1) n = { n with trace } := by
  rw [Activity.performWithin_of_none rfl]
  exact tell_eq change others n

/-! ### Changes of the catalog -/

/-- A node whose catalog has taken in a spec. -/
def stored (n : Node) (spec : Spec) : Node := { n with catalog := (n.catalog.put spec).1 }

/-- A node whose catalog has let go of a uri. -/
def dropped (n : Node) (uri : String) : Node := { n with catalog := n.catalog.remove uri }

/-- A catalog that takes in a spec holds it under its uri, and what it held under the others. -/
theorem catalog_stored (n : Node) (spec : Spec) (a : String) :
    (n.stored spec).catalog.get? a = if spec.uri = a then some spec else n.catalog.get? a := by
  rw [stored, Catalog.getElem?_put]

/-- A put spec is found in the catalog, which keeps every spec under its own uri. -/
theorem keyed_stored (h : ∀ uri spec, n.catalog.get? uri = some spec → spec.uri = uri)
    (spec : Spec) (uri : String) (found : Spec)
    (hf : (n.stored spec).catalog.get? uri = some found) : found.uri = uri := by
  rw [catalog_stored] at hf
  split at hf
  · next heq =>
    cases hf
    exact heq
  · exact h uri found hf

/-- A catalog that lets go of a uri holds what it held under the others. -/
theorem catalog_dropped (n : Node) (uri a : String) :
    (n.dropped uri).catalog.get? a = if uri = a then none else n.catalog.get? a := by
  rw [dropped, Catalog.getElem?_remove]

/-- So the uri is not in the catalog any more. -/
theorem get?_dropped (n : Node) (uri : String) : (n.dropped uri).catalog.get? uri = none := by
  rw [catalog_dropped, if_pos rfl]

/-- A spec that is put into the catalog is added, or updated if there was one under its uri. -/
theorem obey_put (s : Setup) (spec : Spec) (n : Node) :
    ∃ trace, n.obey s (.put spec) =
      { (if (n.catalog.get? spec.uri).isSome then (n.stored spec).update s spec
          else (n.stored spec).add s spec) with trace } := by
  -- Both sides ask whether the uri is in the catalog; let them ask in the same way.
  rw [Catalog.get?, ← Std.ExtTreeMap.contains_eq_isSome_getElem?]
  let others := n.catalog.listeners
  let change : Catalog.Change :=
    if n.catalog.specs.contains spec.uri then .updated spec else .added spec
  have hput : Activity.step s (.put spec) n = (n.stored spec, some (.react change others)) := rfl
  have hreact : Activity.step s (.react change others) (n.stored spec) =
      (if n.catalog.specs.contains spec.uri then (n.stored spec).update s spec
        else (n.stored spec).add s spec, some (.tell change others)) := by
    simp only [change]
    split <;> rfl
  rw [obey, Activity.perform, Activity.performAround, Activity.rank,
    Activity.performWithin_of_some hput, Activity.performWithin_of_some hreact]
  exact performWithin_tell ..

/-- Nothing comes of deleting what is not in the catalog. -/
theorem obey_delete_of_none {uri : String} (h : n.catalog.get? uri = none) :
    n.obey s (.delete uri) = n.dropped uri := by
  have hdelete : Activity.step s (.delete uri) n = (n.dropped uri, none) := by
    simp [Activity.step, Catalog.delete, h, dropped]
  rw [obey, Activity.perform, Activity.performAround, Activity.rank,
    Activity.performWithin_of_none hdelete]

/-- A node of its own or in the lead unschedules what is deleted from the catalog, and
    it clears the catalog once more. -/
theorem obey_delete_of_some (hc : s.catalogued = true) (hs : s.replies.CatalogServes)
    (ha : n.aside s = false) {uri : String} {spec : Spec} (h : n.catalog.get? uri = some spec) :
    ∃ trace, n.obey s (.delete uri) =
      { ((n.dropped uri).unschedule s spec.uri).dropped spec.uri with trace } := by
  -- The node does its work itself after the uri was dropped, as before.
  have haside : (n.dropped uri).aside s = false := ha
  let others := n.catalog.listeners
  let unscheduled := (n.dropped uri).unschedule s spec.uri
  have hdelete : Activity.step s (.delete uri) n =
      (n.dropped uri, some (.react (.deleted spec.uri spec.version) others)) := by
    simp [Activity.step, Catalog.delete, h, dropped, others, Catalog.remove]
  have hreact : Activity.step s (.react (.deleted spec.uri spec.version) others) (n.dropped uri) =
      (unscheduled, some (.clear spec.uri spec.version others)) := by
    simp [Activity.step, delete, haside, hc, unscheduled]
  have hclear : Activity.step s (.clear spec.uri spec.version others) unscheduled =
      ((unscheduled.call (.clear spec.uri)).dropped spec.uri,
        some (.tell (.deleted spec.uri spec.version) others)) := by
    simp [Activity.step, hs.clear, dropped]
  rw [obey, Activity.perform, Activity.performAround, Activity.rank,
    Activity.performWithin_of_some hdelete, Activity.performWithin_of_some hreact,
    Activity.performWithin_of_some hclear]
  obtain ⟨trace, htell⟩ := performWithin_tell s (.deleted spec.uri spec.version) others 0
    ((unscheduled.call (.clear spec.uri)).dropped spec.uri)
  exact ⟨trace, htell⟩

/-- Nobody else is told of a change that comes from outside. -/
theorem obey_updated (s : Setup) (spec : Spec) (n : Node) :
    n.obey s (.change (.updated spec)) = n.update s spec :=
  rfl

/-! ### Notices -/

/-- A notice that arrives on standby is not let in. -/
theorem obey_notice_of_standby (h : n.active = false) (m : Notice) :
    n.obey s (.notice m) = n.alert .noticeOnStandby := by
  have hnotice : Activity.step s (.notice m) n = (n.alert .noticeOnStandby, none) := by
    simp [Activity.step, h]
  rw [obey, Activity.perform, Activity.performAround, Activity.rank,
    Activity.performWithin_of_none hnotice]

/-- A leading node lets a notice in. -/
theorem obey_notice_of_active (h : n.active = true) (m : Notice) :
    n.obey s (.notice m) = (Activity.resolve m).performWithin s id 3 n := by
  have hnotice : Activity.step s (.notice m) n = (n, some (.resolve m)) := by
    simp [Activity.step, h]
  rw [obey, Activity.perform, Activity.performAround, Activity.rank,
    Activity.performWithin_of_some hnotice]

/-- The node once it has asked its catalog about a uri, where it has a catalog. -/
def asked (s : Setup) (uri : String) (n : Node) : Node :=
  if s.catalogued then n.call (.lookUp uri) else n

/-- What the node is told about a uri; there is no spec where there is no catalog. -/
def answer (s : Setup) (uri : String) (n : Node) : Except Fault (Option Spec) :=
  if s.catalogued then s.replies.lookUp (n.call (.lookUp uri)) uri else .ok none

@[simp] theorem asked_active (s : Setup) (uri : String) (n : Node) :
    (n.asked s uri).active = n.active := by
  rw [asked]
  split <;> rfl

@[simp] theorem asked_registry (s : Setup) (uri : String) (n : Node) :
    (n.asked s uri).registry = n.registry := by
  rw [asked]
  split <;> rfl

@[simp] theorem asked_jobs (s : Setup) (uri : String) (n : Node) :
    (n.asked s uri).jobs = n.jobs := by
  rw [asked]
  split <;> rfl

@[simp] theorem asked_catalog (s : Setup) (uri : String) (n : Node) :
    (n.asked s uri).catalog = n.catalog := by
  rw [asked]
  split <;> rfl

/-- A node that has asked its catalog about a uri acts on the answer. -/
theorem performWithin_resolve {kind : Notice.Kind} {uri : String} {m : Notice}
    (h : Activity.step s (.resolve m) n = Activity.lookUp s kind uri n) :
    (Activity.resolve m).performWithin s id 3 n =
      match Activity.afterLookUp kind uri (n.asked s uri) (n.answer s uri) with
      | (n, some a) => a.performWithin s id 1 n
      | (n, none) => n := by
  cases hc : s.catalogued with
  | true =>
    -- The question to the catalog is a stage of its own.
    have hresolve : Activity.step s (.resolve m) n =
        (n.call (.lookUp uri), some (.consult kind uri)) := by
      simp [h, Activity.lookUp, hc]
    have hconsult : Activity.step s (.consult kind uri) (n.call (.lookUp uri)) =
        Activity.afterLookUp kind uri (n.asked s uri) (n.answer s uri) := by
      simp [Activity.step, asked, answer, hc]
    rw [Activity.performWithin_of_some hresolve]
    cases ha : Activity.afterLookUp kind uri (n.asked s uri) (n.answer s uri) with
    | mk m rest =>
      rw [ha] at hconsult
      cases rest with
      | none => exact Activity.performWithin_of_none hconsult id 1
      | some a => exact Activity.performWithin_of_some hconsult 1
  | false =>
    have hresolve : Activity.step s (.resolve m) n =
        Activity.afterLookUp kind uri (n.asked s uri) (n.answer s uri) := by
      simp [h, Activity.lookUp, asked, answer, hc]
    cases ha : Activity.afterLookUp kind uri (n.asked s uri) (n.answer s uri) with
    | mk m rest =>
      rw [ha] at hresolve
      cases rest with
      | none => exact Activity.performWithin_of_none hresolve id 2
      | some a =>
        rw [Activity.performWithin_of_some hresolve]
        -- One stage is left, and it leaves none.
        have hrank : a.rank = 1 := Activity.rank_afterLookUp ha
        cases hstep : a.step s m with
        | mk k rest =>
          cases rest with
          | none =>
            rw [Activity.performWithin_of_none hstep]
            exact (Activity.performWithin_of_none hstep id 0).symm
          | some b =>
            have hless := Activity.rank_step hstep
            have hpos : b.rank ≠ 0 := by cases b <;> simp [Activity.rank]
            omega

/-- What a leading node makes of a notice of an added flow. -/
theorem obey_added (h : n.active = true) (payload : String) (i : Identifier) :
    n.obey s (.notice ⟨.added, payload, i⟩) =
      match n.answer s payload with
      | .ok (some spec) => (n.asked s payload).add s spec
      | .ok none => (n.asked s payload).alert .noticeUnknown
      | .error fault => (n.asked s payload).alert (.noticeNotResolved fault) := by
  have hresolve : Activity.step s (.resolve ⟨.added, payload, i⟩) n =
      Activity.lookUp s .added payload n := rfl
  rw [obey_notice_of_active h, performWithin_resolve hresolve]
  rcases n.answer s payload with fault | _ | spec
  · rfl
  · rfl
  · exact Activity.performWithin_of_none rfl id 0

/-- What a leading node makes of a notice of a removed flow. -/
theorem obey_removed (h : n.active = true) {payload : String} {i : Identifier}
    {uri version : String} (hm : Notice.removal ⟨.removed, payload, i⟩ = .ok (uri, version)) :
    n.obey s (.notice ⟨.removed, payload, i⟩) =
      match n.answer s uri with
      | .ok (some _) => n.asked s uri
      | .ok none => (n.asked s uri).unschedule s uri
      | .error fault => (n.asked s uri).alert (.removalNotReconciled fault) := by
  have hresolve : Activity.step s (.resolve ⟨.removed, payload, i⟩) n =
      Activity.lookUp s .removed uri n := by
    simp [Activity.step, hm]
  -- Either the flow is there and is kept, or the question failed, or it goes.
  rw [obey_notice_of_active h, performWithin_resolve hresolve]
  rcases n.answer s uri with fault | _ | spec
  · rfl
  · -- The node still leads, so the flow goes.
    have hleave : Activity.step s (.leave uri) (n.asked s uri) =
        ((n.asked s uri).unschedule s uri, none) := by
      simp [Activity.step, h]
    exact Activity.performWithin_of_none hleave id 0
  · rfl

/-- What a leading node with a catalog makes of a notice of an added flow. -/
theorem obey_notice_added (h : n.active = true) (hc : s.catalogued = true) (payload : String)
    (i : Identifier) :
    n.obey s (.notice ⟨.added, payload, i⟩) =
      match s.replies.lookUp (n.call (.lookUp payload)) payload with
      | .ok (some spec) => (n.call (.lookUp payload)).add s spec
      | .ok none => (n.call (.lookUp payload)).alert .noticeUnknown
      | .error fault => (n.call (.lookUp payload)).alert (.noticeNotResolved fault) := by
  rw [obey_added h, answer, asked, if_pos hc, if_pos hc]

/-- What a leading node with a catalog makes of a notice of a removed flow. -/
theorem obey_notice_removed (h : n.active = true) (hc : s.catalogued = true) {payload : String}
    {i : Identifier} {uri version : String}
    (hm : Notice.removal ⟨.removed, payload, i⟩ = .ok (uri, version)) :
    n.obey s (.notice ⟨.removed, payload, i⟩) =
      match s.replies.lookUp (n.call (.lookUp uri)) uri with
      | .ok (some _) => n.call (.lookUp uri)
      | .ok none => (n.call (.lookUp uri)).unschedule s uri
      | .error fault => (n.call (.lookUp uri)).alert (.removalNotReconciled fault) := by
  rw [obey_removed h hm, answer, asked, if_pos hc, if_pos hc]

/-- A notice of a removed flow that names none is dropped. -/
theorem obey_notice_malformed (h : n.active = true) {payload : String} {i : Identifier}
    {refusal : Notice.Refusal} (hm : Notice.removal ⟨.removed, payload, i⟩ = .error refusal) :
    n.obey s (.notice ⟨.removed, payload, i⟩) = n.alert (.removalMalformed refusal.fault) := by
  have hresolve : Activity.step s (.resolve ⟨.removed, payload, i⟩) n =
      (n.alert (.removalMalformed refusal.fault), none) := by
    simp [Activity.step, hm]
  rw [obey_notice_of_active h, Activity.performWithin_of_none hresolve]

end FlowCadence.Node
