import FlowCadence.Proofs.Node.Command
/-! # One uri at a time

Whatever a node does to its registry and to the triggers, it does under the uri of one
flow, and what comes out under a uri follows from what was there before.  The engine has
to serve the node's calls for that.

What belongs under a uri is decided by what the catalog holds there (`settled`): a flow
whose schedule can be used, with its trigger, and nothing otherwise.  A spec that is added
comes close to that.  It reconciles its uri: a flow whose schedule can be used is registered
with its trigger, a flow whose schedule cannot be used leaves the registry and not the
engine, and everything else stays as it is.  Where nothing was before, that settles the uri.

## Key results

* `slot_add`, `slot_update`, `slot_unschedule`: each operation under its own uri, and under others
* `reconciled_reconciled`: the same spec once more changes nothing
* `reconciled_empty`, `reconciled_settled`: where a uri comes to what belongs there
* `slot_step`: what a stage of an activity writes under a uri
* `slot_put_topology`, `slot_put_flow`, `stores_delete`: what puts and deletions write -/

namespace FlowCadence.Node

variable {s : Setup} {n m : Node}

/-- What registry and engine hold under one uri. -/
abbrev Slot := Option Flow × Option ScheduledJob

/-- What registry and engine hold under a uri. -/
def slot (n : Node) (uri : String) : Slot := (n.registry[uri]?, n.jobs[uri]?)

/-- Slots are read off the two tables. -/
theorem slot_of_tables (hr : m.registry = n.registry) (hj : m.jobs = n.jobs) (uri : String) :
    m.slot uri = n.slot uri := by
  rw [slot, slot, hr, hj]

/-- Nodes that agree on every slot have the same registry and the same triggers. -/
theorem tables_of_slots (h : ∀ uri, m.slot uri = n.slot uri) :
    m.registry = n.registry ∧ m.jobs = n.jobs := by
  constructor
  · apply Std.ExtTreeMap.ext_getElem?
    intro uri
    exact congrArg Prod.fst (h uri)
  · apply Std.ExtTreeMap.ext_getElem?
    intro uri
    exact congrArg Prod.snd (h uri)

/-! ### What belongs under a uri -/

/-- What belongs in the registry and in the engine under a uri, by what the catalog
    holds under it. -/
def entry (s : Setup) : Option Spec → Option (Flow × ScheduledJob)
  | some (.flow f) =>
    match (configOf s f).schedule with
    | .ok (some sch) => some (f, triggerOf s f sch)
    | _ => none
  | _ => none

/-- What belongs under a uri is a flow with its trigger, if the catalog holds it there and its
    schedule can be used. -/
theorem entry_eq_some_iff {found : Option Spec} {f : Flow} {job : ScheduledJob} :
    entry s found = some (f, job) ↔
      found = some (.flow f) ∧ ∃ sch, s.Schedules f sch ∧ job = triggerOf s f sch := by
  constructor
  · intro h
    -- Only a flow whose schedule can be read leaves something that belongs.
    match found with
    | some (.flow g) =>
      simp only [entry] at h
      split at h
      · next sch hsch =>
        cases h
        exact ⟨rfl, sch, (schedule_configOf_iff s f sch).1 hsch, rfl⟩
      · cases h
    | some (.topology t) => cases h
    | none => cases h
  · rintro ⟨rfl, sch, hsch, rfl⟩
    simp [entry, (schedule_configOf_iff s f sch).2 hsch]

/-- What registry and engine hold once the node has acted on what the catalog holds. -/
def settled (s : Setup) (found : Option Spec) : Slot :=
  ((entry s found).map (·.1), (entry s found).map (·.2))

/-- What belongs in the slot of a flow that can be scheduled is the flow and its trigger. -/
theorem settled_of_schedules {f : Flow} {sch : Cron.Schedule} (h : s.Schedules f sch) :
    settled s (some (.flow f)) = (some f, some (triggerOf s f sch)) := by
  simp [settled, entry, (schedule_configOf_iff s f sch).2 h]

/-- Registry and triggers hold nothing under a uri. -/
def EmptyAt (n : Node) (uri : String) : Prop := n.registry[uri]? = none ∧ n.jobs[uri]? = none

/-- Nothing is kept under a uri just if its slot is empty. -/
theorem emptyAt_iff {uri : String} : n.EmptyAt uri ↔ n.slot uri = (none, none) := by
  rw [slot, Prod.mk.injEq]
  rfl

/-- What a slot becomes by what the catalog holds under its uri. -/
def reconciled (s : Setup) : Option Spec → Slot → Slot
  | some (.flow f), old =>
    match (configOf s f).schedule with
    | .ok (some sch) => (some f, some (triggerOf s f sch))
    | .ok none => old
    | .error _ => (none, old.2)
  | some (.topology _), old => old
  | none, _ => (none, none)

/-- To act on the same answer once more changes nothing. -/
theorem reconciled_reconciled (s : Setup) (found : Option Spec) (old : Slot) :
    reconciled s found (reconciled s found old) = reconciled s found old := by
  match found with
  -- What is not a flow leaves either what was there or nothing.
  | none | some (.topology t) => rfl
  | some (.flow f) =>
    -- A flow puts its own entry, leaves the slot, or empties its first half.
    simp only [reconciled]
    cases (configOf s f).schedule with
    | error fault => rfl
    | ok o => cases o <;> rfl

/-- A flow whose schedule can be used settles its slot, whatever was there. -/
theorem reconciled_of_schedules {f : Flow} {sch : Cron.Schedule} (h : s.Schedules f sch)
    (old : Slot) : reconciled s (some (.flow f)) old = settled s (some (.flow f)) := by
  rw [settled_of_schedules h]
  simp [reconciled, (schedule_configOf_iff s f sch).2 h]

/-- An empty slot comes to what belongs there. -/
theorem reconciled_empty (s : Setup) (found : Option Spec) :
    reconciled s found (none, none) = settled s found := by
  match found with
  | none | some (.topology t) => rfl
  | some (.flow f) =>
    simp only [reconciled, settled, entry]
    cases (configOf s f).schedule with
    | error fault => rfl
    | ok o => cases o <;> rfl

/-- What belongs in a slot is left there. -/
theorem reconciled_settled (s : Setup) (found : Option Spec) :
    reconciled s found (settled s found) = settled s found := by
  rw [← reconciled_empty, reconciled_reconciled]

/-! ### Operations -/

/-- To ask the catalog touches no slot. -/
theorem slot_asked (s : Setup) (a : String) (n : Node) (uri : String) :
    (n.asked s a).slot uri = n.slot uri :=
  slot_of_tables (asked_registry s a n) (asked_jobs s a n) uri

/-- An added spec reconciles its own uri. -/
theorem slot_add (hs : s.replies.EngineServes) (ha : n.aside s = false) (spec : Spec) :
    (n.add s spec).slot spec.uri = reconciled s (some spec) (n.slot spec.uri) := by
  cases spec with
  | topology t => rfl
  | flow f =>
    show (n.addFlow s f).slot f.uri.text = reconciled s (some (.flow f)) (n.slot f.uri.text)
    -- The engine serves the call, so the schedule alone decides.
    have hadd := addFlow_of_serves hs ha (f := f)
    rw [reconciled, slot, slot]
    cases hsch : (configOf s f).schedule with
    | error fault =>
      rw [hsch] at hadd
      simp [hadd.1, hadd.2]
    | ok o =>
      rw [hsch] at hadd
      cases o with
      | none => simp [hadd.1, hadd.2]
      | some sch => simp [hadd.1, hadd.2]

/-- An added spec leaves the slots of other uris alone. -/
theorem slot_add_of_ne {spec : Spec} {uri : String} (h : spec.uri ≠ uri) :
    (n.add s spec).slot uri = n.slot uri := by
  obtain ⟨hr, hj⟩ := add_of_ne (s := s) (n := n) h
  exact Prod.ext hr hj

/-- An unscheduled flow leaves its slot empty. -/
theorem slot_unschedule (hs : s.replies.EngineServes) (uri : String) :
    (n.unschedule s uri).slot uri = (none, none) := by
  simp [slot, jobs_unschedule hs]

/-- An unscheduled flow leaves its uri empty. -/
theorem emptyAt_unschedule (hs : s.replies.EngineServes) (uri : String) :
    (n.unschedule s uri).EmptyAt uri :=
  Prod.ext_iff.1 (slot_unschedule hs uri)

/-- The slots of other uris stay. -/
theorem slot_unschedule_of_ne {a uri : String} (h : a ≠ uri) :
    (n.unschedule s a).slot uri = n.slot uri := by
  rw [slot, slot, registry_unschedule, Table.lookUp_erase, if_neg h, jobs_unschedule_of_ne h]

/-- A changed flow finds its place empty. -/
theorem slot_update (hs : s.replies.EngineServes) (ha : n.aside s = false) (f : Flow) :
    (n.update s (.flow f)).slot f.uri.text = reconciled s (some (.flow f)) (none, none) := by
  -- What is added is added to a node that has just let go of the old version.
  have haside : (n.unschedule s f.uri.text).aside s = false :=
    (aside_congr (active_unschedule s f.uri.text n)).trans ha
  have hadd := slot_add hs haside (.flow f)
  rw [Spec.uri, slot_unschedule hs] at hadd
  rw [update_of_here ha, hadd]

/-- A changed flow leaves the slots of other uris alone. -/
theorem slot_update_of_ne (ha : n.aside s = false) {f : Flow} {uri : String}
    (h : f.uri.text ≠ uri) : (n.update s (.flow f)).slot uri = n.slot uri := by
  have hne : (Spec.flow f).uri ≠ uri := h
  rw [update_of_here ha, slot_add_of_ne hne, slot_unschedule_of_ne h]

/-! ### Stages -/

/-- What a stage does to registry and triggers. -/
inductive Write where
  /-- A spec is added. -/
  | enter (spec : Spec)
  /-- A flow takes the place of what was there. -/
  | renew (f : Flow)
  /-- A uri is cleared. -/
  | leave (uri : String)

/-- What a write makes of the slot of a uri. -/
def Write.apply (s : Setup) (uri : String) : Write → Slot → Slot
  | .enter spec, old => if spec.uri = uri then reconciled s (some spec) old else old
  | .renew f, old =>
    if f.uri.text = uri then reconciled s (some (.flow f)) (none, none) else old
  | .leave a, old => if a = uri then (none, none) else old

/-- What a stage writes.  A node that stands aside adds and removes nothing, and only a
    leading node lets a flow go that a notice calls removed. -/
def Activity.write? (s : Setup) (n : Node) : Activity → Option Write
  | .enter spec | .react (.added spec) _ => if n.aside s then none else some (.enter spec)
  | .react (.updated spec) _ => if n.aside s then none else spec.flow?.map .renew
  | .react (.deleted uri _) _ => if n.aside s then none else some (.leave uri)
  | .leave uri => if n.active then some (.leave uri) else none
  | .notice _ | .resolve _ | .consult .. | .put _ | .delete _ | .clear .. | .tell .. => none

/-- What a slot becomes where something may be written. -/
def written (s : Setup) (uri : String) (w : Option Write) (old : Slot) : Slot :=
  w.elim old fun w => w.apply s uri old

@[simp] theorem written_none (s : Setup) (uri : String) (old : Slot) :
    written s uri none old = old :=
  rfl

/-- Adding a spec writes it, or nothing on a node that stands aside. -/
theorem slot_add_eq (hs : s.replies.EngineServes) (spec : Spec) (uri : String) :
    (n.add s spec).slot uri =
      written s uri (if n.aside s then none else some (.enter spec)) (n.slot uri) := by
  by_cases ha : n.aside s = true
  · obtain ⟨_, heq⟩ := add_eq_of_aside ha spec
    simp [ha, heq, slot]
  · rw [Bool.not_eq_true] at ha
    -- It is the slot of the spec, or of another uri.
    by_cases hne : spec.uri = uri
    · subst hne
      simp [ha, slot_add hs ha, written, Write.apply]
    · simp [ha, slot_add_of_ne hne, written, Write.apply, hne]

/-- Unscheduling a flow writes that it leaves. -/
theorem slot_unschedule_eq (hs : s.replies.EngineServes) (a uri : String) :
    (n.unschedule s a).slot uri = written s uri (some (.leave a)) (n.slot uri) := by
  by_cases hne : a = uri
  · subst hne
    simp [slot_unschedule hs, written, Write.apply]
  · simp [slot_unschedule_of_ne hne, written, Write.apply, hne]

/-- Updating a flow writes it anew, or nothing on a node that stands aside. -/
theorem slot_update_eq (hs : s.replies.EngineServes) (spec : Spec) (uri : String) :
    (n.update s spec).slot uri =
      written s uri (if n.aside s then none else spec.flow?.map .renew) (n.slot uri) := by
  cases spec with
  | topology t => simp [update, Spec.flow?]
  | flow f =>
    by_cases ha : n.aside s = true
    · obtain ⟨_, heq⟩ := update_eq_of_aside ha (.flow f)
      simp [ha, heq, slot]
    · rw [Bool.not_eq_true] at ha
      -- The old version leaves and the new one is added.
      by_cases hne : f.uri.text = uri
      · subst hne
        simp [ha, slot_update hs ha, Spec.flow?, written, Write.apply]
      · simp [ha, slot_update_of_ne ha hne, Spec.flow?, written, Write.apply, hne]

/-- Deleting a flow writes that it leaves, or nothing on a node that stands aside. -/
theorem slot_delete_eq (hs : s.replies.EngineServes) (a version uri : String) :
    (n.delete s a version).slot uri =
      written s uri (if n.aside s then none else some (.leave a)) (n.slot uri) := by
  by_cases ha : n.aside s = true
  · obtain ⟨_, heq⟩ := delete_eq_of_aside ha a version
    simp [ha, heq, slot]
  · simp [delete, ha, slot_unschedule_eq hs]

/-- What a stage of an activity leaves under a uri is what it writes there. -/
theorem slot_step (hs : s.replies.EngineServes) (a : Activity) (n : Node) (uri : String) :
    (a.step s n).1.slot uri = written s uri (a.write? s n) (n.slot uri) := by
  cases a with
  | notice m =>
    -- A notice leads to the stage at which it is resolved, or to nothing.
    rw [Activity.step]
    split <;> rfl
  | resolve m =>
    have hlookUp (kind : Notice.Kind) (a : String) :
        (Activity.lookUp s kind a n).1.slot uri = n.slot uri := by
      obtain ⟨trace, heq⟩ := lookUp_eq s kind a n
      rw [heq]
      rfl
    -- To ask the catalog is all that comes of a notice here, if it can be read.
    rw [Activity.step]
    split
    · exact hlookUp _ _
    · split
      · exact hlookUp _ _
      · rfl
  | consult kind a =>
    obtain ⟨trace, heq⟩ := afterLookUp_eq kind a n (s.replies.lookUp n a)
    rw [Activity.step, heq]
    rfl
  | enter spec => exact slot_add_eq hs spec uri
  | leave a =>
    -- Whether the node still leads.
    by_cases hactive : n.active = true
    · simp [Activity.step, Activity.write?, hactive, slot_unschedule_eq hs]
    · simp [Activity.step, Activity.write?, hactive, slot]
  -- The catalog is written to, and no slot is.
  | put spec | delete a => rfl
  | react change others =>
    cases change with
    | added spec => exact slot_add_eq hs spec uri
    | updated spec => exact slot_update_eq hs spec uri
    | deleted a version => exact slot_delete_eq hs a version uri
  | clear a version others =>
    -- The catalog lets go of what it still holds.
    rw [Activity.step]
    split <;> rfl
  | tell change others =>
    obtain ⟨trace, heq⟩ := tell_eq change others n
    rw [Activity.step, heq]
    rfl

/-! ### Changes of the catalog -/

/-- No put touches a slot for a topology. -/
theorem slot_put_topology (s : Setup) (t : Topology) (n : Node) (uri : String) :
    (n.obey s (.put (.topology t))).slot uri = n.slot uri := by
  obtain ⟨trace, hobey⟩ := obey_put s (.topology t) n
  rw [hobey]
  split <;> rfl

/-- A flow that is put settles its slot: the old version goes first if there is one, and
    otherwise nothing is there. -/
theorem slot_put_flow (hs : s.replies.EngineServes) (ha : n.aside s = false) {f : Flow}
    (hempty : n.catalog.get? f.uri.text = none → n.slot f.uri.text = (none, none)) (uri : String) :
    (n.obey s (.put (.flow f))).slot uri =
      if (Spec.flow f).uri = uri then settled s (some (.flow f)) else n.slot uri := by
  have hstored : (n.stored (.flow f)).aside s = false := ha
  have hslot : (n.stored (.flow f)).slot uri = n.slot uri := rfl
  obtain ⟨trace, hobey⟩ := obey_put s (.flow f) n
  rw [hobey, ← reconciled_empty]
  split
  · show ((n.stored (.flow f)).update s (.flow f)).slot uri = _
    rw [slot_update_eq hs, if_neg (by simp [hstored]), hslot]
    rfl
  · next hnew =>
    show ((n.stored (.flow f)).add s (.flow f)).slot uri = _
    rw [slot_add_eq hs, if_neg (by simp [hstored]), hslot]
    by_cases hne : (Spec.flow f).uri = uri
    · subst hne
      have hnone : n.slot (Spec.flow f).uri = (none, none) :=
        hempty (Option.not_isSome_iff_eq_none.1 hnew)
      simp [written, Write.apply, hnone]
    · simp [written, Write.apply, hne]

/-- Neither the flag nor anything in the catalog changes by a put, except that the spec is
    found under its uri. -/
theorem stores_put (s : Setup) (spec : Spec) (n : Node) :
    (n.obey s (.put spec)).active = n.active ∧
      (n.obey s (.put spec)).catalog = (n.stored spec).catalog := by
  obtain ⟨trace, hobey⟩ := obey_put s spec n
  rw [hobey]
  split
  · exact ⟨active_update s spec (n.stored spec), catalog_update s spec (n.stored spec)⟩
  · exact ⟨active_add s spec (n.stored spec), catalog_add s spec (n.stored spec)⟩

/-- A node of its own or in the lead lets go of a deleted uri, and clears its slot unless the
    catalog held nothing under it. -/
theorem stores_delete (hc : s.catalogued = true) (hs : s.replies.EngineServes)
    (hcs : s.replies.CatalogServes) (ha : n.aside s = false)
    (hkeyed : ∀ uri spec, n.catalog.get? uri = some spec → spec.uri = uri) (uri : String) :
    (n.obey s (.delete uri)).active = n.active ∧
      (∀ a, (n.obey s (.delete uri)).catalog.get? a =
        if uri = a then none else n.catalog.get? a) ∧
      ∀ a, (n.obey s (.delete uri)).slot a =
        if uri = a ∧ (n.catalog.get? uri).isSome then (none, none) else n.slot a := by
  cases hold : n.catalog.get? uri with
  | none =>
    rw [obey_delete_of_none hold]
    exact ⟨rfl, fun a => catalog_dropped n uri a, fun a => by simp [slot, dropped]⟩
  | some spec =>
    obtain ⟨trace, hobey⟩ := obey_delete_of_some hc hcs ha hold
    obtain rfl : spec.uri = uri := hkeyed uri spec hold
    -- The catalog lets go of the uri twice, before and after the flow is unscheduled.
    let unscheduled := (n.dropped spec.uri).unschedule s spec.uri
    have hcatalog (a : String) : (unscheduled.dropped spec.uri).catalog.get? a =
        if spec.uri = a then none else n.catalog.get? a := by
      rw [catalog_dropped, catalog_unschedule, catalog_dropped]
      split <;> rfl
    have hslot (a : String) : (unscheduled.dropped spec.uri).slot a =
        if spec.uri = a then (none, none) else n.slot a :=
      slot_unschedule_eq hs spec.uri a
    rw [hobey]
    refine ⟨active_unschedule s spec.uri (n.dropped spec.uri), hcatalog, fun a => ?_⟩
    simp only [Option.isSome_some, and_true]
    exact hslot a

end FlowCadence.Node
