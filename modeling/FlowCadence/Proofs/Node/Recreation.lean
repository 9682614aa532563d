import FlowCadence.Proofs.Node.Mirror
import FlowCadence.Proofs.Node.Stages
/-! # A flow that is deleted and put back

While a flow is deleted from the catalog it may be put back, perhaps as a new version.  The
deletion goes through three stages: the catalog lets the uri go, the node unschedules it,
and the node clears the catalog once more.  The last stage clears whatever is there by then.
The flow that is put back goes through two: the catalog takes it in, and the node schedules
it.

If the catalog takes the flow in before it is cleared, and the node schedules it after it
has unscheduled the uri, then the flow stays scheduled and the catalog does not hold it any
more.  In every other order catalog and schedule are together in the end: both hold the
flow, or neither does.

## Key results

* `Intact.step`, `Regains.step`: what the flow that is put back comes to by itself
* `Recreation.sound_step`, `Recreation.doomed_step`: what each move keeps, before the catalog
  is cleared late and after
* `together_iff`: when catalog and schedule are together in the end -/

namespace FlowCadence.Node

/-- The catalog holds the flow just if it is registered and its trigger installed. -/
def Together (s : Setup) (n : Node) (f : Flow) (sch : Cron.Schedule) : Prop :=
  n.catalog.get? f.uri.text = some (.flow f) ↔
    n.registry[f.uri.text]? = some f ∧ n.jobs[f.uri.text]? = some (triggerOf s f sch)

/-- The next stage clears a uri from the catalog. -/
def Activity.clears (uri : String) : Activity → Bool
  | .clear a _ _ => a = uri
  | _ => false

/-- The next stage schedules a spec under a uri. -/
def Activity.enrols (uri : String) : Activity → Bool
  | .react (.added spec) _ | .react (.updated spec) _ => spec.uri = uri
  | _ => false

/-- The catalog is still to be cleared of a uri, and a flow is registered under it again or
    is about to be. -/
def ClearsLate (uri : String) (b : Busy) : Prop :=
  (∃ a ∈ b.underway, a.clears uri = true) ∧
    (b.node.registry[uri]? ≠ none ∨ ∃ a ∈ b.underway, a.enrols uri = true)

instance (uri : String) (b : Busy) : Decidable (ClearsLate uri b) :=
  inferInstanceAs (Decidable (_ ∧ _))

variable {s : Setup} {r : Replies} {n m : Node} {uri : String} {f : Flow} {sch : Cron.Schedule}

/-! ### The stages of the deletion -/

/-- A node that does its work itself unschedules what is gone from its catalog, and then it is
    to clear the catalog. -/
theorem step_deleted (hc : s.catalogued = true) (hr : r.EngineServes) (haside : n.aside s = false)
    (uri version : String) (others : List String) :
    (Activity.step { s with replies := r } (.react (.deleted uri version) others) n).1.slot uri =
        (none, none) ∧
      (Activity.step { s with replies := r } (.react (.deleted uri version) others) n).2 =
        some (.clear uri version others) := by
  have hreacts : Reacts s uri none (.react (.deleted uri version) others) := .deleted _ _
  constructor
  · exact (hreacts.step hr haside).2.1
  · show some (if (n.aside s || !s.catalogued) = true then _ else _) = _
    rw [haside, hc]
    rfl

/-- A catalog that answers is cleared of whatever it holds under the uri. -/
theorem step_clear (hr : r.CatalogServes) (uri version : String) (others : List String)
    (n : Node) :
    (Activity.step { s with replies := r } (.clear uri version others) n).1.catalog.get? uri =
        none ∧
      (Activity.step { s with replies := r } (.clear uri version others) n).1.slot uri =
        n.slot uri ∧
      (Activity.step { s with replies := r } (.clear uri version others) n).2 =
        some (.tell (.deleted uri version) others) := by
  have hstep : Activity.step { s with replies := r } (.clear uri version others) n =
      ((n.call (.clear uri)).dropped uri, some (.tell (.deleted uri version) others)) := by
    simp [Activity.step, hr.clear, dropped]
  rw [hstep]
  exact ⟨get?_dropped _ uri, rfl, rfl⟩

/-- Behind a flow that is in the catalog, all that may be left to do is to tell others. -/
theorem Closes.step_of_some {a : Activity} {spec : Spec} (h : Closes uri (some spec) a)
    (s : Setup) (n : Node) :
    (∃ trace, (a.step s n).1 = { n with trace }) ∧ (a.step s n).2 = none := by
  cases h with
  | tell change others => exact ⟨tell_eq change others n, rfl⟩

/-! ### The stages of the flow that is put back -/

/-- How far the flow has come: the catalog is to take it in, or the node is to schedule it, or
    nothing is left but to tell others. -/
inductive Puts (s : Setup) (uri : String) (f : Flow) : Option Activity → Prop where
  | put : Puts s uri f (some (.put (.flow f)))
  | react {a : Activity} (ha : Reacts s uri (some (.flow f)) a) : Puts s uri f (some a)
  | closed {c : Option Activity} (hc : ∀ a ∈ c, Closes uri (some (.flow f)) a) : Puts s uri f c

/-- Nothing of the flow was undone: what it has come to so far is there. -/
inductive Intact (s : Setup) (uri : String) (f : Flow) (n : Node) : Option Activity → Prop where
  | put (hkeyed : ∀ spec, n.catalog.get? uri = some spec → spec.uri = uri) :
    Intact s uri f n (some (.put (.flow f)))
  | react {a : Activity} (ha : Reacts s uri (some (.flow f)) a)
    (hcat : n.catalog.get? uri = some (.flow f)) : Intact s uri f n (some a)
  | closed {c : Option Activity} (hc : ∀ a ∈ c, Closes uri (some (.flow f)) a)
    (hcat : n.catalog.get? uri = some (.flow f))
    (hslot : n.slot uri = settled s (some (.flow f))) : Intact s uri f n c

/-- The flow is scheduled, or the node is to schedule it, whatever the catalog holds. -/
inductive Regains (s : Setup) (uri : String) (f : Flow) (n : Node) : Option Activity → Prop where
  | react {a : Activity} (ha : Reacts s uri (some (.flow f)) a) : Regains s uri f n (some a)
  | closed {c : Option Activity} (hc : ∀ a ∈ c, Closes uri (some (.flow f)) a)
    (hslot : n.slot uri = settled s (some (.flow f))) : Regains s uri f n c

/-- The flow came and went: neither the catalog nor the schedule holds anything. -/
structure Gone (uri : String) (f : Flow) (n : Node) (c : Option Activity) : Prop where
  closed : ∀ a ∈ c, Closes uri (some (.flow f)) a
  catalog : n.catalog.get? uri = none
  slot : n.slot uri = (none, none)

namespace Puts

/-- A stage takes the flow one stage further, whatever the catalog holds. -/
theorem step {a : Activity} (h : Puts s uri f (some a)) (huri : f.uri.text = uri)
    (hsch : s.Schedules f sch) (hr : r.EngineServes) (haside : n.aside s = false) :
    Puts s uri f (a.step { s with replies := r } n).2 := by
  cases h with
  | put =>
    obtain ⟨-, -, b, hb, hreacts⟩ := step_put (s := s) (r := r) huri hsch n
    rw [hb]
    exact .react hreacts
  | react ha => exact .closed (ha.step (s := s) hr haside).2.2
  | closed hc =>
    rw [((hc a rfl).step_of_some _ n).2]
    exact .closed (by simp)

end Puts

namespace Intact

/-- What is intact has come as far as it says. -/
theorem puts {c : Option Activity} (h : Intact s uri f n c) : Puts s uri f c := by
  cases h with
  | put => exact .put
  | react ha _ => exact .react ha
  | closed hc _ _ => exact .closed hc

/-- What the catalog holds under the uri is kept under the uri of the spec. -/
theorem keyed {c : Option Activity} (h : Intact s uri f n c) (huri : f.uri.text = uri)
    (spec : Spec) (hspec : n.catalog.get? uri = some spec) : spec.uri = uri := by
  cases h with
  | put hkeyed => exact hkeyed spec hspec
  | react _ hcat | closed _ hcat _ =>
    rw [hcat] at hspec
    cases hspec
    exact huri

/-- Only the catalog and the slot of the uri count. -/
theorem of_stores {c : Option Activity} (h : Intact s uri f n c)
    (hcatalog : m.catalog.get? uri = n.catalog.get? uri) (hslots : m.slot uri = n.slot uri) :
    Intact s uri f m c := by
  cases h with
  | put hkeyed => exact .put (hcatalog ▸ hkeyed)
  | react ha hcat => exact .react ha (hcatalog.trans hcat)
  | closed hc hcat hslot => exact .closed hc (hcatalog.trans hcat) (hslots.trans hslot)

/-- What is intact stays so by its own stages. -/
theorem step {a : Activity} (h : Intact s uri f n (some a)) (huri : f.uri.text = uri)
    (hsch : s.Schedules f sch) (hr : r.EngineServes) (haside : n.aside s = false) :
    Intact s uri f (a.step { s with replies := r } n).1 (a.step { s with replies := r } n).2 := by
  cases h with
  | put hkeyed =>
    obtain ⟨hcat, -, b, hb, hreacts⟩ := step_put (s := s) (r := r) huri hsch n
    rw [hb]
    exact .react hreacts hcat
  | react ha hcat =>
    obtain ⟨hcatalog, hslot, hrest⟩ := ha.step (s := s) hr haside
    exact .closed hrest (by rw [hcatalog, hcat]) hslot
  -- Telling others touches neither the catalog nor the slot.
  | closed hc hcat hslot =>
    obtain ⟨⟨trace, hnode⟩, hrest⟩ := (hc a rfl).step_of_some { s with replies := r } n
    rw [hnode, hrest]
    exact .closed (by simp) hcat hslot

end Intact

namespace Regains

/-- Only the slot counts, and not what the catalog holds. -/
theorem of_slot {c : Option Activity} (h : Regains s uri f n c)
    (hslots : m.slot uri = n.slot uri) : Regains s uri f m c := by
  cases h with
  | react ha => exact .react ha
  | closed hc hslot => exact .closed hc (hslots.trans hslot)

/-- Scheduling does not need the catalog, and leaves it as it is. -/
theorem step {a : Activity} (h : Regains s uri f n (some a)) (hr : r.EngineServes)
    (haside : n.aside s = false) :
    Regains s uri f (a.step { s with replies := r } n).1 (a.step { s with replies := r } n).2 ∧
      (a.step { s with replies := r } n).1.catalog = n.catalog := by
  cases h with
  | react ha =>
    obtain ⟨hcatalog, hslot, hrest⟩ := ha.step (s := s) hr haside
    exact ⟨.closed hrest hslot, hcatalog⟩
  | closed hc hslot =>
    obtain ⟨⟨trace, hnode⟩, hrest⟩ := (hc a rfl).step_of_some { s with replies := r } n
    rw [hnode, hrest]
    exact ⟨.closed (by simp) hslot, rfl⟩

end Regains

/-! ### Moves -/

namespace Recreation

/-- How far the deletion has come while the catalog was not cleared late. -/
inductive Sound (s : Setup) (uri : String) (f : Flow) (b : Busy) : Prop where
  | before {c : Option Activity} (hb : b.underway = .delete uri :: c.toList)
    (hc : Intact s uri f b.node c)
  | between {version : String} {others : List String} {c : Option Activity}
    (hb : b.underway = .react (.deleted uri version) others :: c.toList) (hc : Puts s uri f c)
  | clearing {version : String} {others : List String} {c : Option Activity}
    (hb : b.underway = .clear uri version others :: c.toList)
    (hc : Puts s uri f c ∧ b.node.slot uri = (none, none) ∨ Regains s uri f b.node c)
  | after {d c : Option Activity} (hb : b.underway = d.toList ++ c.toList)
    (hd : ∀ a ∈ d, Closes uri (some (.flow f)) a)
    (hc : Intact s uri f b.node c ∨ Gone uri f b.node c)

/-- The catalog is going to be cleared late, or it has been. -/
inductive Doomed (s : Setup) (uri : String) (f : Flow) (b : Busy) : Prop where
  | clearing {version : String} {others : List String} {c : Option Activity}
    (hb : b.underway = .clear uri version others :: c.toList) (hc : Regains s uri f b.node c)
  | after {d c : Option Activity} (hb : b.underway = d.toList ++ c.toList)
    (hd : ∀ a ∈ d, Closes uri (some (.flow f)) a) (hc : Regains s uri f b.node c)
    (hcat : b.node.catalog.get? uri = none)

variable {b : Busy}

/-- What is left to do about the flow clears nothing. -/
theorem clears_eq_false {a : Activity} {c : Option Activity} (h : Puts s uri f c) (ha : a ∈ c) :
    a.clears uri = false := by
  cases h with
  | put =>
    cases ha
    rfl
  | react hreacts =>
    cases ha
    cases hreacts <;> rfl
  | closed hc => cases hc a ha; rfl

/-- A uri that is cleared is cleared by the deletion. -/
theorem clears_of_mem {d c : Option Activity} (hb : b.underway = d.toList ++ c.toList)
    (hc : Puts s uri f c) {a : Activity} (ha : a ∈ b.underway) (hclears : a.clears uri = true) :
    a ∈ d := by
  rw [hb, List.mem_append, Option.mem_toList, Option.mem_toList] at ha
  rcases ha with ha | ha
  · exact ha
  · rw [clears_eq_false hc ha] at hclears
    cases hclears

/-- While the uri is still to be cleared and is cleared in time, nothing is scheduled under it,
    and the catalog is still to take the flow in or all is done about it. -/
theorem in_time_of_not_late {version : String} {others : List String} {c : Option Activity}
    (hb : b.underway = .clear uri version others :: c.toList)
    (hc : Puts s uri f c ∧ b.node.slot uri = (none, none) ∨ Regains s uri f b.node c)
    (hsch : s.Schedules f sch) (hlate : ¬ ClearsLate uri b) :
    b.node.slot uri = (none, none) ∧
      (c = some (.put (.flow f)) ∨ ∀ a ∈ c, Closes uri (some (.flow f)) a) := by
  have hclears : ∃ a ∈ b.underway, a.clears uri = true := by
    refine ⟨.clear uri version others, ?_, ?_⟩
    · simp [hb]
    · simp [Activity.clears]
  -- To schedule the flow now would make it late.
  have hreacts (a : Activity) (ha : Reacts s uri (some (.flow f)) a) : c ≠ some a := by
    intro hca
    refine hlate ⟨hclears, .inr ⟨a, by simp [hb, hca], ?_⟩⟩
    cases ha with
    | added huri => simp [Activity.enrols, Spec.uri, huri]
    | updated huri => simp [Activity.enrols, Spec.uri, huri]
  rcases hc with ⟨hputs, hslot⟩ | hregains
  · refine ⟨hslot, ?_⟩
    cases hputs with
    | put => exact .inl rfl
    | react ha => exact absurd rfl (hreacts _ ha)
    | closed hc => exact .inr hc
  · cases hregains with
    | react ha => exact absurd rfl (hreacts _ ha)
    | closed hc hslot =>
      rw [settled_of_schedules hsch] at hslot
      have hregistered : b.node.registry[uri]? = some f := congrArg Prod.fst hslot
      exact absurd ⟨hclears, .inl (by simp [hregistered])⟩ hlate

/-- What is cleared late is doomed. -/
theorem doomed_of_late (h : Sound s uri f b) (hlate : ClearsLate uri b) : Doomed s uri f b := by
  obtain ⟨⟨a, ha, hclears⟩, hagain⟩ := hlate
  cases h with
  | before hb hc =>
    -- Neither the catalog's deletion nor the reaction to it is the stage that clears.
    cases clears_of_mem (d := some _) hb hc.puts ha hclears
    cases hclears
  | between hb hc =>
    cases clears_of_mem (d := some _) hb hc ha hclears
    cases hclears
  | @clearing version others c hb hc =>
    rcases hc with ⟨hputs, hslot⟩ | hregains
    · -- Nothing is scheduled under the uri yet, so the flow is about to be.
      have hempty : b.node.registry[uri]? = none := congrArg Prod.fst hslot
      rcases hagain with hregistered | ⟨x, hx, henrols⟩
      · exact absurd hempty hregistered
      · rw [hb, List.mem_cons, Option.mem_toList] at hx
        rcases hx with rfl | hx
        · simp [Activity.enrols] at henrols
        · cases hputs with
          | put => cases hx; simp [Activity.enrols] at henrols
          | react ha => exact .clearing hb (.react ha)
          | closed hc => cases hc x hx; simp [Activity.enrols] at henrols
    · exact .clearing hb hregains
  | @after d c hb hd hc =>
    have hputs : Puts s uri f c := by
      rcases hc with hintact | hgone
      · exact hintact.puts
      · exact .closed hgone.closed
    have hleft := clears_of_mem hb hputs ha hclears
    rw [clears_eq_false (s := s) (.closed hd) hleft] at hclears
    cases hclears

section Move

variable (hcat : s.catalogued = true) (he : r.EngineServes) (hr : r.CatalogServes)
variable (haside : b.node.aside s = false)
variable (huri : f.uri.text = uri) (hsch : s.Schedules f sch)

include he haside huri hsch in
/-- Before the catalog lets the uri go nothing of the flow is undone. -/
theorem sound_step_of_before {c : Option Activity} (hb : b.underway = .delete uri :: c.toList)
    (hc : Intact s uri f b.node c) (place : Nat) :
    Sound s uri f (b.step { s with replies := r } (.advance place)) := by
  have hpair : b.underway = (some (.delete uri)).toList ++ c.toList := hb
  rcases step_pair (s := { s with replies := r }) hpair place with
    heq | ⟨a, ha, heq⟩ | ⟨a, ha, heq⟩
  · rw [heq]
    exact .before hb hc
  · cases ha
    obtain ⟨hnode, hrest⟩ := step_delete (s := s) (r := r) (hc.keyed huri)
    rw [heq, hnode, hrest]
    cases hfound : b.node.catalog.get? uri with
    | some spec => exact .between rfl hc.puts
    | none =>
      -- There is nothing to delete, so the catalog has yet to take the flow in.
      refine .after (d := none) rfl (by simp) (.inl ?_)
      cases hc with
      | put =>
        refine .put fun spec hspec => ?_
        rw [get?_dropped] at hspec
        cases hspec
      | react _ hheld | closed _ hheld _ =>
        rw [hfound] at hheld
        cases hheld
  · cases ha
    rw [heq]
    -- Each of the two may go on: the deletion, or the flow that is put back.
    exact .before rfl (hc.step huri hsch he haside)

include hcat he haside huri hsch in
/-- Until the node unschedules the uri, the flow may come as far as it likes. -/
theorem sound_step_of_between {version : String} {others : List String} {c : Option Activity}
    (hb : b.underway = .react (.deleted uri version) others :: c.toList) (hc : Puts s uri f c)
    (place : Nat) : Sound s uri f (b.step { s with replies := r } (.advance place)) := by
  have hpair : b.underway = (some (.react (.deleted uri version) others)).toList ++ c.toList := hb
  rcases step_pair (s := { s with replies := r }) hpair place with
    heq | ⟨a, ha, heq⟩ | ⟨a, ha, heq⟩
  · rw [heq]
    exact .between hb hc
  · cases ha
    obtain ⟨hslot, hrest⟩ := step_deleted (s := s) hcat he haside uri version others
    rw [heq, hrest]
    exact .clearing rfl (.inl ⟨hc, hslot⟩)
  · cases ha
    rw [heq]
    exact .between rfl (hc.step huri hsch he haside)

include hr huri hsch in
/-- A uri that is cleared in time is cleared before the catalog takes the flow in, or after the
    flow came and went. -/
theorem sound_step_of_clearing {version : String} {others : List String} {c : Option Activity}
    (hb : b.underway = .clear uri version others :: c.toList)
    (hslot : b.node.slot uri = (none, none))
    (hc : c = some (.put (.flow f)) ∨ ∀ a ∈ c, Closes uri (some (.flow f)) a) (place : Nat) :
    Sound s uri f (b.step { s with replies := r } (.advance place)) := by
  have hpair : b.underway = (some (.clear uri version others)).toList ++ c.toList := hb
  rcases step_pair (s := { s with replies := r }) hpair place with
    heq | ⟨a, ha, heq⟩ | ⟨a, ha, heq⟩
  · rw [heq]
    refine .clearing hb (.inl ⟨?_, hslot⟩)
    rcases hc with rfl | hc
    · exact .put
    · exact .closed hc
  · cases ha
    obtain ⟨hgone, hsame, hrest⟩ := step_clear (s := s) hr uri version others b.node
    rw [heq, hrest]
    -- Either the flow is yet to be put, or all of it is over and was cleared.
    refine .after rfl (closes_tell (.deleted uri version) others) ?_
    rcases hc with rfl | hc
    · left
      refine .put fun spec hspec => ?_
      rw [hgone] at hspec
      cases hspec
    · right
      exact ⟨hc, hgone, hsame.trans hslot⟩
  · rw [heq]
    rcases hc with rfl | hc
    · cases ha
      obtain ⟨-, hsame, x, hx, hreacts⟩ := step_put (s := s) (r := r) huri hsch b.node
      rw [hx]
      exact .clearing rfl (.inl ⟨.react hreacts, hsame.trans hslot⟩)
    · obtain ⟨⟨trace, hnode⟩, hrest⟩ := (hc a ha).step_of_some { s with replies := r } b.node
      rw [hnode, hrest]
      exact .clearing (c := none) rfl (.inl ⟨.closed (by simp), hslot⟩)

include he haside huri hsch in
/-- Once the catalog was cleared in time, nothing of the flow is undone any more. -/
theorem sound_step_of_after {d c : Option Activity} (hb : b.underway = d.toList ++ c.toList)
    (hd : ∀ a ∈ d, Closes uri (some (.flow f)) a)
    (hc : Intact s uri f b.node c ∨ Gone uri f b.node c) (place : Nat) :
    Sound s uri f (b.step { s with replies := r } (.advance place)) := by
  rcases step_pair (s := { s with replies := r }) hb place with
    heq | ⟨a, ha, heq⟩ | ⟨a, ha, heq⟩
  · rw [heq]
    exact .after hb hd hc
  · obtain ⟨⟨trace, hnode⟩, hrest⟩ := (hd a ha).step_of_some { s with replies := r } b.node
    rw [heq, hnode, hrest]
    refine .after (d := none) rfl (by simp) ?_
    rcases hc with hintact | hgone
    · exact .inl (hintact.of_stores rfl rfl)
    · exact .inr ⟨hgone.closed, hgone.catalog, hgone.slot⟩
  · rw [heq]
    rcases hc with hintact | hgone
    · cases ha
      exact .after rfl hd (.inl (hintact.step huri hsch he haside))
    · obtain ⟨⟨trace, hnode⟩, hrest⟩ :=
        (hgone.closed a ha).step_of_some { s with replies := r } b.node
      rw [hnode, hrest]
      exact .after (c := none) rfl hd (.inr ⟨by simp, hgone.catalog, hgone.slot⟩)

include hcat he hr haside huri hsch in
/-- What is sound stays so, unless the catalog is cleared late. -/
theorem sound_step (h : Sound s uri f b) (hlate : ¬ ClearsLate uri b) (place : Nat) :
    Sound s uri f (b.step { s with replies := r } (.advance place)) := by
  cases h with
  | before hb hc => exact sound_step_of_before he haside huri hsch hb hc place
  | between hb hc => exact sound_step_of_between hcat he haside huri hsch hb hc place
  | clearing hb hc =>
    obtain ⟨hslot, hdone⟩ := in_time_of_not_late hb hc hsch hlate
    exact sound_step_of_clearing hr huri hsch hb hslot hdone place
  | after hb hd hc => exact sound_step_of_after he haside huri hsch hb hd hc place

include he hr haside in
/-- What is doomed stays so: the flow is scheduled, and the catalog is cleared of it. -/
theorem doomed_step (h : Doomed s uri f b) (place : Nat) :
    Doomed s uri f (b.step { s with replies := r } (.advance place)) := by
  cases h with
  | @clearing version others c hb hc =>
    have hpair : b.underway = (some (.clear uri version others)).toList ++ c.toList := hb
    rcases step_pair (s := { s with replies := r }) hpair place with
      heq | ⟨a, ha, heq⟩ | ⟨a, ha, heq⟩
    · rw [heq]
      exact .clearing hb hc
    · cases ha
      obtain ⟨hgone, hsame, hrest⟩ := step_clear (s := s) hr uri version others b.node
      rw [heq, hrest]
      exact .after rfl (closes_tell (.deleted uri version) others) (hc.of_slot hsame) hgone
    · cases ha
      rw [heq]
      exact .clearing rfl (hc.step he haside).1
  | @after d c hb hd hc hgone =>
    rcases step_pair (s := { s with replies := r }) hb place with
      -- Neither what is told nor what is scheduled brings anything back into the catalog.
      heq | ⟨a, ha, heq⟩ | ⟨a, ha, heq⟩
    · rw [heq]
      exact .after hb hd hc hgone
    · obtain ⟨⟨trace, hnode⟩, hrest⟩ := (hd a ha).step_of_some { s with replies := r } b.node
      rw [heq, hnode, hrest]
      exact .after (d := none) rfl (by simp) (hc.of_slot rfl) hgone
    · cases ha
      obtain ⟨hregains, hcatalog⟩ := hc.step he haside
      rw [heq]
      exact .after rfl hd hregains (by rw [hcatalog, hgone])

end Move

/-! ### Runs -/

/-- Where all is done about the flow, catalog and schedule are together if they hold what they
    should, or nothing. -/
theorem together_of_done (hsch : s.Schedules f sch)
    (h : Intact s f.uri.text f n none ∨ Gone f.uri.text f n none) : Together s n f sch := by
  rcases h with hintact | hgone
  · cases hintact with
    | closed _ hcat hslot =>
      rw [settled_of_schedules hsch] at hslot
      exact iff_of_true hcat ⟨congrArg Prod.fst hslot, congrArg Prod.snd hslot⟩
  · refine iff_of_false ?_ ?_
    · simp [hgone.catalog]
    · intro hscheduled
      have hempty : n.registry[f.uri.text]? = none := congrArg Prod.fst hgone.slot
      rw [hempty] at hscheduled
      cases hscheduled.1

/-- A run comes out right exactly when the catalog is not cleared late in it. -/
theorem course (hcat : s.catalogued = true) (hsch : s.Schedules f sch) :
    Course s Turn.Advances (ClearsLate f.uri.text)
      (fun b => b.node.aside s = false ∧ Sound s f.uri.text f b)
      (fun b => b.node.aside s = false ∧ Doomed s f.uri.text f b)
      (fun b => Together s b.node f sch) where
  keeps b turn hturn h hlate := by
    obtain ⟨haside, hsound⟩ := h
    obtain ⟨place, heq⟩ := hturn.stage
    rw [heq, aside, active_advance]
    exact ⟨haside, sound_step hcat hturn.engine hturn.catalog haside rfl hsch hsound hlate place⟩
  fails b h hlate := ⟨h.1, doomed_of_late h.2 hlate⟩
  stays b turn hturn h := by
    obtain ⟨haside, hdoomed⟩ := h
    obtain ⟨place, heq⟩ := hturn.stage
    rw [heq, aside, active_advance]
    exact ⟨haside, doomed_step hturn.engine hturn.catalog haside hdoomed place⟩
  right b hdone h := by
    constructor
    · cases h.2 with
      | before hb _ | between hb _ | clearing hb _ => simp [hdone] at hb
      | @after d c hb _ hc =>
        -- With nothing under way the flow has nothing left to do either.
        have hnone : c = none := by
          cases c with
          | none => rfl
          | some a => simp [hdone] at hb
        subst hnone
        exact together_of_done hsch hc
    · intro hlate
      obtain ⟨⟨a, ha, _⟩, _⟩ := hlate
      rw [hdone] at ha
      cases ha
  wrong b hdone h := by
    cases h.2 with
    | clearing hb _ => simp [hdone] at hb
    | @after d c hb _ hc hgone =>
      -- The catalog holds nothing, so together they could only be if nothing were scheduled.
      intro htogether
      cases hc with
      | react ha => simp [hdone] at hb
      | closed _ hslot =>
        rw [settled_of_schedules hsch] at hslot
        have hheld := htogether.2 ⟨congrArg Prod.fst hslot, congrArg Prod.snd hslot⟩
        rw [hgone] at hheld
        cases hheld

end Recreation

/-- Let a node that does its work itself, with a catalog that keeps what it holds under a uri
    under that uri, delete the uri and put a flow whose schedule can be used under it, the
    stages of both in any order, on an engine that serves every call.  When both are finished,
    the catalog holds the flow just if it is scheduled, exactly when the catalog was at no
    moment still to be cleared of the uri while a flow was registered there again or about to
    be. -/
theorem together_iff (hcat : s.catalogued = true) (haside : n.aside s = false)
    (hsch : s.Schedules f sch)
    (hkeyed : ∀ spec, n.catalog.get? f.uri.text = some spec → spec.uri = f.uri.text)
    {turns : List Turn} (hturns : ∀ turn ∈ turns, turn.Advances)
    (hdone : (Busy.run s ⟨n, [.delete f.uri.text, .put (.flow f)]⟩ turns).underway = []) :
    Together s (Busy.run s ⟨n, [.delete f.uri.text, .put (.flow f)]⟩ turns).node f sch ↔
      ∀ k, ¬ ClearsLate f.uri.text
        (Busy.run s ⟨n, [.delete f.uri.text, .put (.flow f)]⟩ (turns.take k)) := by
  have hstart : Recreation.Sound s f.uri.text f ⟨n, [.delete f.uri.text, .put (.flow f)]⟩ :=
    .before (c := some (.put (.flow f))) rfl (.put hkeyed)
  exact (Recreation.course hcat hsch).right_iff hturns ⟨haside, hstart⟩ hdone

private def recreatedUri : Label := ⟨"flow://l", Eq.refl false⟩

/-- The flow as it was, every day at midnight. -/
private def dailyFlow : Flow := timed recreatedUri ⟨"1", Eq.refl false⟩ "0 0 * * *"

/-- The flow as it is put back, every hour. -/
private def hourlyFlow : Flow := timed recreatedUri ⟨"2", Eq.refl false⟩ "0 * * * *"

/-- A node leads, and the flow is in its catalog and scheduled. -/
private def dailyLeader : Node :=
  (Node.initial.lead (.plain .reliable) true).obey (.plain .reliable) (.put (.flow dailyFlow))

/-- The catalog of the leader and its schedule agree to begin with. -/
private theorem synced_dailyLeader : Synced (.plain .reliable) dailyLeader :=
  synced_put Replies.reliable_engineServes (synced_start Replies.reliable_catalogServes rfl) rfl

/-- The old version is deleted and the new one put, by stages of the one and the other. -/
private def swapsAt (places : List Nat) : Busy :=
  Busy.run (.plain .reliable) ⟨dailyLeader, [.delete hourlyFlow.uri.text, .put (.flow hourlyFlow)]⟩
    (stagesAt places)

/-- The catalog is cleared before it takes the new version in, and both hold that one. -/
theorem together_cleared :
    ∃ sch, (Setup.plain .reliable).Schedules hourlyFlow sch ∧
      let b := swapsAt [0, 0, 0, 1, 1, 0, 0]
      b.underway = [] ∧ b.node.catalog.get? "flow://l" = some (.flow hourlyFlow) ∧
        Together (.plain .reliable) b.node hourlyFlow sch := by
  have husable : ∃ sch, (Setup.plain .reliable).Schedules hourlyFlow sch := by decide +kernel
  obtain ⟨sch, hsch⟩ := husable
  have hdone : (swapsAt [0, 0, 0, 1, 1, 0, 0]).underway = [] := by decide +kernel
  have hin_time : ∀ k ≤ 7, ¬ ClearsLate hourlyFlow.uri.text
      (swapsAt ([0, 0, 0, 1, 1, 0, 0].take k)) := by
    decide +kernel
  have hno (k : Nat) :
      ¬ ClearsLate hourlyFlow.uri.text (swapsAt ([0, 0, 0, 1, 1, 0, 0].take k)) := by
    rcases Nat.le_total k 7 with hk | hk
    · exact hin_time k hk
    · rw [List.take_of_length_le hk]
      exact hin_time 7 (Nat.le_refl 7)
  refine ⟨sch, hsch, hdone, by decide +kernel, ?_⟩
  rw [swapsAt] at hdone ⊢
  refine (together_iff rfl (by decide +kernel) hsch (synced_dailyLeader.keyed _)
    (advances_stagesAt _) hdone).2 fun k => ?_
  rw [stagesAt, ← List.map_take]
  exact hno k

/-- The catalog takes the new version in and is cleared of it, and then it is scheduled. -/
theorem not_together :
    ¬ ∀ (s : Setup) (n : Node) (f : Flow) (sch : Cron.Schedule) (turns : List Turn),
      s.catalogued = true → n.aside s = false → Mirrors s n → s.Schedules f sch →
      (∀ turn ∈ turns, turn.Advances) →
      (Busy.run s ⟨n, [.delete f.uri.text, .put (.flow f)]⟩ turns).underway = [] →
      Together s (Busy.run s ⟨n, [.delete f.uri.text, .put (.flow f)]⟩ turns).node f sch := by
  intro h
  have husable : ∃ sch, (Setup.plain .reliable).Schedules hourlyFlow sch := by decide +kernel
  obtain ⟨sch, hsch⟩ := husable
  have hdone : (swapsAt [0, 0, 1, 0, 1, 0, 0]).underway = [] := by decide +kernel
  have htogether :
      Together (.plain .reliable) (swapsAt [0, 0, 1, 0, 1, 0, 0]).node hourlyFlow sch :=
    h (.plain .reliable) dailyLeader hourlyFlow sch (stagesAt [0, 0, 1, 0, 1, 0, 0]) rfl
      (by decide +kernel) synced_dailyLeader.toMirrors hsch (advances_stagesAt _) hdone
  have hscheduled : (swapsAt [0, 0, 1, 0, 1, 0, 0]).node.slot "flow://l" =
      settled (.plain .reliable) (some (.flow hourlyFlow)) := by decide +kernel
  rw [settled_of_schedules hsch] at hscheduled
  -- The flow is scheduled, so the catalog would have to hold it.
  have hheld := htogether.2 ⟨congrArg Prod.fst hscheduled, congrArg Prod.snd hscheduled⟩
  exact absurd hheld (by decide +kernel)

end FlowCadence.Node
