import FlowCadence.Proofs.Node.Mirror
import FlowCadence.Proofs.Node.Stages
/-! # Notices that are overtaken

A leading node asks its catalog about the flow that a notice names, and it acts on the
answer in a later stage.  Meanwhile the flow may change: the catalog takes the change in,
and then the node hears of it.  That the node still leads is looked at again before it
acts, but what the catalog holds is not.

So a notice can undo a change that has overtaken it.  The registry comes out right exactly
when there is no moment at which the change is through and the answer from before it is
still to be acted on and would make a difference.

## Key results

* `Asks.step`, `Told.step`: the stages of a notice
* `sound_step`, `doomed_step`: what each move keeps, before the change is undone and after
* `right_at_end_iff`: when the registry is right in the end -/

namespace FlowCadence.Node

variable {s : Setup} {r : Replies} {n : Node} {uri : String} {new : Option Spec}

/-- The registry holds under a uri just the flow that the catalog holds there, if its
    schedule can be used. -/
def RightAt (s : Setup) (n : Node) (uri : String) : Prop :=
  ∀ f, n.registry[uri]? = some f ↔
    n.catalog.get? uri = some (.flow f) ∧ ∃ sch, s.Schedules f sch

/-- The activity is a change of the catalog, or the node has not acted on one yet. -/
def Activity.alters : Activity → Bool
  | .put _ | .delete _ | .react .. => true
  | _ => false

/-- Nothing is left to do about a change of the catalog, and the next stage of something
    else changes what is registered under the uri. -/
def Overtaken (s : Setup) (uri : String) (b : Busy) : Prop :=
  (∀ a ∈ b.underway, a.alters = false) ∧
    ∃ a ∈ b.underway, (a.step s b.node).1.registry[uri]? ≠ b.node.registry[uri]?

instance (s : Setup) (uri : String) (b : Busy) : Decidable (Overtaken s uri b) :=
  inferInstanceAs (Decidable (_ ∧ _))

/-! ### What is right -/

/-- The flow that belongs into the registry, by what the catalog holds. -/
def due (s : Setup) (found : Option Spec) : Option Flow := (entry s found).map (·.1)

/-- A flow is due just if it is found and its schedule can be used. -/
theorem due_eq_some_iff {found : Option Spec} {f : Flow} :
    due s found = some f ↔ found = some (.flow f) ∧ ∃ sch, s.Schedules f sch := by
  simp only [due, Option.map_eq_some_iff, Prod.exists, entry_eq_some_iff]
  constructor
  · rintro ⟨g, job, ⟨hfound, sch, hsch, -⟩, rfl⟩
    exact ⟨hfound, sch, hsch⟩
  · rintro ⟨hfound, sch, hsch⟩
    exact ⟨f, triggerOf s f sch, ⟨hfound, sch, hsch, rfl⟩, rfl⟩

/-- The registry is right under a uri just if it holds the flow that is due there. -/
theorem rightAt_iff : RightAt s n uri ↔ (n.slot uri).1 = due s (n.catalog.get? uri) := by
  rw [RightAt, Option.ext_iff]
  apply forall_congr'
  intro f
  rw [due_eq_some_iff]
  exact Iff.rfl

/-- To act on what the catalog holds keeps the registry right. -/
theorem fst_reconciled {found : Option Spec} {old : Slot} (h : old.1 = due s found) :
    (reconciled s found old).1 = due s found := by
  match found with
  | none | some (.topology t) => simp_all [reconciled, due, entry]
  | some (.flow f) =>
    simp only [reconciled, due, entry] at h ⊢
    cases hsch : (configOf s f).schedule with
    | error fault => rfl
    | ok o => cases o <;> simp_all

/-! ### The stages of a notice -/

/-- A notice of a uri, while its node has no answer from the catalog yet. -/
inductive Asks (uri : String) : Activity → Prop where
  | notice {m : Notice} (h : m.subject? = some uri) : Asks uri (.notice m)
  | resolve {m : Notice} (h : m.subject? = some uri) : Asks uri (.resolve m)
  | consult (kind : Notice.Kind) : Asks uri (.consult kind uri)

/-- A notice of a uri, once its node was told what the catalog held there. -/
inductive Told (uri : String) : Option Spec → Activity → Prop where
  | enter {spec : Spec} (h : spec.uri = uri) : Told uri (some spec) (.enter spec)
  | leave : Told uri none (.leave uri)

/-- Until the catalog answers only the trace changes, and the answer is what it holds. -/
theorem Asks.step {a : Activity} (h : Asks uri a) (hc : s.catalogued = true)
    (hr : r.CatalogServes) (hactive : n.active = true)
    (hkeyed : ∀ spec, n.catalog.get? uri = some spec → spec.uri = uri) :
    (∃ trace, (a.step { s with replies := r } n).1 = { n with trace }) ∧
      ∀ b ∈ (a.step { s with replies := r } n).2,
        Asks uri b ∨ Told uri (n.catalog.get? uri) b := by
  cases h with
  | @notice m hm =>
    -- On standby the notice would be dropped here, but the node leads.
    have hstep : Activity.step { s with replies := r } (.notice m) n = (n, some (.resolve m)) := by
      simp [Activity.step, hactive]
    rw [hstep]
    refine ⟨⟨n.trace, rfl⟩, fun b hb => ?_⟩
    cases hb
    exact .inl (.resolve hm)
  | @resolve m hm =>
    have hstep : ∃ kind, Activity.step { s with replies := r } (.resolve m) n =
        (n.call (.lookUp uri), some (.consult kind uri)) := by
      obtain ⟨kind, payload, i⟩ := m
      cases kind with
      | added =>
        cases hm
        exact ⟨.added, by simp [Activity.step, Activity.lookUp, hc]⟩
      | removed =>
        refine ⟨.removed, ?_⟩
        cases hremoval : Notice.removal ⟨.removed, payload, i⟩ with
        -- A removal that cannot be read names no uri.
        | error refusal => simp [Notice.subject?, hremoval, Except.toOption] at hm
        | ok sides =>
          obtain ⟨a, version⟩ := sides
          simp only [Notice.subject?, hremoval, Except.toOption, Option.map_some,
            Option.some.injEq] at hm
          subst hm
          simp [Activity.step, Activity.lookUp, hremoval, hc]
    obtain ⟨kind, hstep⟩ := hstep
    rw [hstep]
    refine ⟨⟨_, rfl⟩, fun b hb => ?_⟩
    cases hb
    exact .inl (.consult kind)
  | consult kind =>
    have hstep : Activity.step { s with replies := r } (.consult kind uri) n =
        Activity.afterLookUp kind uri n (.ok (n.catalog.get? uri)) := by
      simp [Activity.step, hr.lookUp]
    rw [hstep]
    refine ⟨afterLookUp_eq kind uri n _, fun b hb => .inr ?_⟩
    -- What is held is added, and what is not held is removed; all else ends here.
    cases hfound : n.catalog.get? uri with
    | some spec =>
      rw [hfound, Activity.afterLookUp] at hb
      cases kind with
      | added =>
        cases hb
        exact .enter (hkeyed spec hfound)
      | removed => cases hb
    | none =>
      rw [hfound, Activity.afterLookUp] at hb
      cases kind with
      | added => cases hb
      | removed =>
        cases hb
        exact .leave

/-- A notice is acted on in one stage, which reconciles the uri with the answer. -/
theorem Told.step {a : Activity} {found : Option Spec} (h : Told uri found a)
    (hr : r.EngineServes) (hactive : n.active = true) :
    (a.step { s with replies := r } n).2 = none ∧
      (a.step { s with replies := r } n).1.active = true ∧
      (a.step { s with replies := r } n).1.catalog = n.catalog ∧
      (a.step { s with replies := r } n).1.slot uri = reconciled s found (n.slot uri) := by
  have hslot := slot_step_of_replies (s := s) hr a n uri
  have haside : n.aside s = false := aside_of_active hactive
  cases h with
  | @enter spec huri =>
    refine ⟨rfl, ?_, ?_, ?_⟩
    · simp [Activity.step, hactive]
    · simp [Activity.step]
    · rw [hslot]
      simp [Activity.write?, haside, written, Write.apply, huri]
  | leave =>
    refine ⟨?_, ?_, ?_, ?_⟩
    · simp [Activity.step, hactive]
    · simp [Activity.step, hactive]
    · simp [Activity.step, hactive]
    · rw [hslot]
      simp [Activity.write?, hactive, written, Write.apply, reconciled]

/-! ### Moves -/

/-- How far the change has come while nothing of it was undone.  Until the catalog takes it
    in, whatever a notice was told holds still; and once the node has acted on it, the
    registry is right. -/
inductive Sound (s : Setup) (uri : String) (new : Option Spec) (b : Busy) : Prop where
  | before {p : Option Activity} {a : Activity} (hb : b.underway = p.toList ++ [a])
    (ha : Changes s uri new a)
    (hp : ∀ x ∈ p, Asks uri x ∨ Told uri (b.node.catalog.get? uri) x)
    (hkeyed : ∀ spec, b.node.catalog.get? uri = some spec → spec.uri = uri)
    (hright : RightAt s b.node uri)
  | between {p : Option Activity} {a : Activity} (hb : b.underway = p.toList ++ [a])
    (ha : Reacts s uri new a) (hp : ∀ x ∈ p, Asks uri x ∨ ∃ found, Told uri found x)
    (hcat : b.node.catalog.get? uri = new)
  | after {p c : Option Activity} (hb : b.underway = p.toList ++ c.toList)
    (hc : ∀ x ∈ c, Closes uri new x) (hp : ∀ x ∈ p, Asks uri x ∨ ∃ found, Told uri found x)
    (hcat : b.node.catalog.get? uri = new) (hright : RightAt s b.node uri)

/-- The change is through, and it is going to be undone, or it has been. -/
inductive Doomed (s : Setup) (uri : String) (new : Option Spec) (b : Busy) : Prop where
  | told {x : Activity} {c : Option Activity} {found : Option Spec}
    (hb : b.underway = x :: c.toList) (hc : ∀ y ∈ c, Closes uri new y) (hx : Told uri found x)
    (hcat : b.node.catalog.get? uri = new) (hright : RightAt s b.node uri)
    (hundo : (reconciled s found (b.node.slot uri)).1 ≠ (b.node.slot uri).1)
  | undone {c : Option Activity} (hb : b.underway = c.toList) (hc : ∀ y ∈ c, Closes uri new y)
    (hcat : b.node.catalog.get? uri = new) (hwrong : ¬ RightAt s b.node uri)

/-- Only the registry under the uri and the catalog count. -/
theorem RightAt.of_slot {m : Node} (h : RightAt s n uri)
    (hslot : (m.slot uri).1 = (n.slot uri).1)
    (hcat : m.catalog.get? uri = n.catalog.get? uri) : RightAt s m uri := by
  rw [rightAt_iff] at h ⊢
  rw [hslot, hcat, h]

/-- A notice that was told its answer is no change of the catalog. -/
theorem Told.alters_eq {a : Activity} {found : Option Spec} (h : Told uri found a) :
    a.alters = false := by
  cases h <;> rfl

/-- Neither is what remains of a change. -/
theorem Closes.alters_eq {a : Activity} (h : Closes uri new a) : a.alters = false := by
  cases h <;> rfl

section Move

variable {b : Busy}
variable (hc : s.catalogued = true) (hs : s.replies.EngineServes)
variable (he : r.EngineServes) (hr : r.CatalogServes) (hactive : b.node.active = true)
variable (hnew : ∀ spec, new = some spec → spec.uri = uri)

include hc hs hactive hnew in
/-- A change that is overtaken by a notice is going to be undone. -/
theorem doomed_of_overtaken (h : Sound s uri new b) (hover : Overtaken s uri b)
    (hcs : s.replies.CatalogServes) : Doomed s uri new b := by
  obtain ⟨halters, x, hx, hchange⟩ := hover
  cases h with
  -- As long as the change is under way, it is not overtaken.
  | before hb ha hp hkeyed hright =>
    -- The change itself is still to alter something, which the assumption rules out.
    have hlater := halters _ (by rw [hb]; exact List.mem_append_right _ List.mem_cons_self)
    cases ha <;> cases hlater
  | between hb ha hp hcat =>
    have hlater := halters _ (by rw [hb]; exact List.mem_append_right _ List.mem_cons_self)
    cases ha <;> cases hlater
  | @after p c hb hc' hp hcat hright =>
    rw [hb, List.mem_append, Option.mem_toList, Option.mem_toList] at hx
    rcases hx with hx | hx
    · have hkeyed : ∀ spec, b.node.catalog.get? uri = some spec → spec.uri = uri := hcat ▸ hnew
      rcases hp x hx with hasks | ⟨found, htold⟩
      · -- A notice that has no answer yet touches nothing.
        obtain ⟨⟨trace, heq⟩, -⟩ := hasks.step hc hcs hactive hkeyed
        exact absurd (by rw [heq]) hchange
      · obtain ⟨-, -, -, hslot⟩ := htold.step hs hactive
        refine .told (by rw [hb, Option.mem_def.1 hx]; rfl) hc' htold hcat hright ?_
        rw [← hslot]
        exact hchange
    -- What remains of the change leaves the slot alone, so it is not what overtakes.
    · obtain ⟨-, hslot, -⟩ := (hc' x hx).step hs hcat
      exact absurd (congrArg Prod.fst hslot) hchange

include he hactive in
/-- What is doomed stays so. -/
theorem doomed_step (h : Doomed s uri new b) (place : Nat) :
    Doomed s uri new (b.step { s with replies := r } (.advance place)) := by
  cases h with
  | @told x c found hb hc hx hcat hright hundo =>
    have hpair : b.underway = (some x).toList ++ c.toList := hb
    rcases step_pair (s := { s with replies := r }) hpair place with
      heq | ⟨a, ha, heq⟩ | ⟨a, ha, heq⟩
    · rw [heq]
      exact .told hb hc hx hcat hright hundo
    · -- The notice is acted on, and the registry is wrong from now on.
      cases ha
      obtain ⟨hrest, -, hcatalog, hslot⟩ := hx.step (s := s) he hactive
      rw [heq, hrest]
      refine .undone rfl hc (by rw [hcatalog, hcat]) ?_
      rw [rightAt_iff, hslot, hcatalog, ← rightAt_iff.1 hright]
      exact hundo
    · -- What remains of the change makes no difference to the notice.
      obtain ⟨hcat', hslot, hrest⟩ := (hc a ha).step (s := s) he hcat
      rw [heq]
      refine .told rfl hrest hx hcat' ?_ ?_
      · exact hright.of_slot (by rw [hslot]) (by rw [hcat', hcat])
      · rw [hslot]
        exact hundo
  | @undone c hb hc hcat hwrong =>
    have hpair : b.underway = (none : Option Activity).toList ++ c.toList := hb
    rcases step_pair (s := { s with replies := r }) hpair place with
      heq | ⟨a, ha, heq⟩ | ⟨a, ha, heq⟩
    · rw [heq]
      exact .undone hb hc hcat hwrong
    · cases ha
    · obtain ⟨hcat', hslot, hrest⟩ := (hc a ha).step (s := s) he hcat
      rw [heq]
      refine .undone rfl hrest hcat' fun hright => hwrong ?_
      exact RightAt.of_slot hright (by rw [hslot]) (by rw [hcat', hcat])

include hc he hr hactive in
/-- As long as the change is still to be made, the answers that notices get hold, and to act
    on them does no harm. -/
theorem sound_step_of_changes {p : Option Activity} {a : Activity}
    (hb : b.underway = p.toList ++ [a]) (ha : Changes s uri new a)
    (hp : ∀ x ∈ p, Asks uri x ∨ Told uri (b.node.catalog.get? uri) x)
    (hkeyed : ∀ spec, b.node.catalog.get? uri = some spec → spec.uri = uri)
    (hright : RightAt s b.node uri) (place : Nat) :
    Sound s uri new (b.step { s with replies := r } (.advance place)) := by
  have hpair : b.underway = p.toList ++ (some a).toList := hb
  rcases step_pair (s := { s with replies := r }) hpair place with
    heq | ⟨x, hx, heq⟩ | ⟨x, hx, heq⟩
  · rw [heq]
    exact .before hb ha hp hkeyed hright
  -- The notice does its next stage: it asks, or it acts on what it was told.
  · rcases hp x hx with hasks | htold
    · obtain ⟨⟨trace, hnode⟩, hrest⟩ := hasks.step hc hr hactive hkeyed
      rw [heq, hnode]
      exact .before rfl ha hrest hkeyed hright
    · -- The catalog still holds what the notice was told.
      obtain ⟨hrest, -, hcatalog, hslot⟩ := htold.step (s := s) he hactive
      rw [heq, hrest]
      refine .before (p := none) rfl ha (by simp) (hcatalog ▸ hkeyed) ?_
      rw [rightAt_iff, hslot, hcatalog]
      exact fst_reconciled (rightAt_iff.1 hright)
  · -- The catalog takes the change in, and what the notice was told may be out of date.
    cases hx
    obtain ⟨hcat, hslot, hrest⟩ := ha.step (s := s) (r := r) hkeyed
    have hheard : ∀ x ∈ p, Asks uri x ∨ ∃ found, Told uri found x := by
      intro x hx
      exact (hp x hx).imp_right fun h => ⟨_, h⟩
    rw [heq]
    rcases hrest with ⟨y, hy, hreacts⟩ | ⟨hnone, hsame⟩
    · rw [hy]
      exact .between rfl hreacts hheard hcat
    · -- Nothing was there to delete, so the registry is right already.
      rw [hnone]
      refine .after (c := none) rfl (by simp) hheard hcat ?_
      exact hright.of_slot (by rw [hslot]) (by rw [hcat, hsame])

include hc he hr hactive hnew in
/-- Until the node acts on the change a notice may do what it likes, and then the registry
    is right. -/
theorem sound_step_of_reacts {p : Option Activity} {a : Activity}
    (hb : b.underway = p.toList ++ [a]) (ha : Reacts s uri new a)
    (hp : ∀ x ∈ p, Asks uri x ∨ ∃ found, Told uri found x)
    (hcat : b.node.catalog.get? uri = new) (place : Nat) :
    Sound s uri new (b.step { s with replies := r } (.advance place)) := by
  have hkeyed : ∀ spec, b.node.catalog.get? uri = some spec → spec.uri = uri := hcat ▸ hnew
  have hpair : b.underway = p.toList ++ (some a).toList := hb
  rcases step_pair (s := { s with replies := r }) hpair place with
    heq | ⟨x, hx, heq⟩ | ⟨x, hx, heq⟩
  · rw [heq]
    exact .between hb ha hp hcat
  · rcases hp x hx with hasks | ⟨found, htold⟩
    · obtain ⟨⟨trace, hnode⟩, hrest⟩ := hasks.step hc hr hactive hkeyed
      rw [heq, hnode]
      exact .between rfl ha (fun y hy => (hrest y hy).imp_right fun h => ⟨_, h⟩) hcat
    · -- Whatever the notice leaves under the uri, the change is still to be acted on.
      obtain ⟨hrest, -, hcatalog, -⟩ := htold.step (s := s) he hactive
      rw [heq, hrest]
      exact .between (p := none) rfl ha (by simp) (by rw [hcatalog, hcat])
  · cases hx
    obtain ⟨hcatalog, hslot, hrest⟩ := ha.step (s := s) he (aside_of_active hactive)
    rw [heq]
    -- The change has settled the slot, whatever a notice had left there.
    refine .after rfl hrest hp (by rw [hcatalog, hcat]) ?_
    rw [rightAt_iff, hslot, hcatalog, hcat]
    rfl

include hs hactive in
/-- A notice that is acted on once the change is through keeps the registry as it is, unless
    the change is overtaken. -/
theorem kept_of_not_overtaken {p c : Option Activity} {x : Activity} {found : Option Spec}
    (hb : b.underway = p.toList ++ c.toList) (hc : ∀ y ∈ c, Closes uri new y) (hx : x ∈ p)
    (htold : Told uri found x) (hover : ¬ Overtaken s uri b) :
    (reconciled s found (b.node.slot uri)).1 = (b.node.slot uri).1 := by
  apply Decidable.byContradiction
  intro hundo
  obtain ⟨-, -, -, hslot⟩ := htold.step hs hactive
  -- Otherwise the notice is the activity that overtakes the change.
  apply hover
  rw [Overtaken, hb]
  constructor
  · intro y hy
    rw [List.mem_append, Option.mem_toList, Option.mem_toList] at hy
    rcases hy with hy | hy
    · obtain rfl : y = x := Option.some.inj (hy.symm.trans hx)
      exact htold.alters_eq
    · exact (hc y hy).alters_eq
  · refine ⟨x, List.mem_append_left _ (Option.mem_toList.2 hx), ?_⟩
    show ((x.step s b.node).1.slot uri).1 ≠ (b.node.slot uri).1
    rw [hslot]
    exact hundo

include hc hs he hr hactive hnew in
/-- Once the change is through the registry stays right, unless the change is overtaken. -/
theorem sound_step_of_closes {p c : Option Activity} (hb : b.underway = p.toList ++ c.toList)
    (hc' : ∀ x ∈ c, Closes uri new x) (hp : ∀ x ∈ p, Asks uri x ∨ ∃ found, Told uri found x)
    (hcat : b.node.catalog.get? uri = new) (hright : RightAt s b.node uri)
    (hover : ¬ Overtaken s uri b) (place : Nat) :
    Sound s uri new (b.step { s with replies := r } (.advance place)) := by
  have hkeyed : ∀ spec, b.node.catalog.get? uri = some spec → spec.uri = uri := hcat ▸ hnew
  rcases step_pair (s := { s with replies := r }) hb place with
    heq | ⟨x, hx, heq⟩ | ⟨x, hx, heq⟩
  · rw [heq]
    exact .after hb hc' hp hcat hright
  · rcases hp x hx with hasks | ⟨found, htold⟩
    · obtain ⟨⟨trace, hnode⟩, hrest⟩ := hasks.step hc hr hactive hkeyed
      rw [heq, hnode]
      exact .after rfl hc' (fun y hy => (hrest y hy).imp_right fun h => ⟨_, h⟩) hcat hright
    -- Acting on an old answer would overtake the change, unless it makes no difference.
    · obtain ⟨hrest, -, hcatalog, hslot⟩ := htold.step (s := s) he hactive
      have hkept := kept_of_not_overtaken hs hactive hb hc' hx htold hover
      rw [heq, hrest]
      refine .after (p := none) rfl hc' (by simp) (by rw [hcatalog, hcat]) ?_
      exact hright.of_slot (by rw [hslot, hkept]) (by rw [hcatalog])
  · obtain ⟨hcat', hslot, hrest⟩ := (hc' x hx).step (s := s) he hcat
    rw [heq]
    exact .after rfl hrest hp hcat' (hright.of_slot (by rw [hslot]) (by rw [hcat', hcat]))

include hc hs he hr hactive hnew in
/-- What is sound stays so, unless the change is overtaken. -/
theorem sound_step (h : Sound s uri new b) (hover : ¬ Overtaken s uri b) (place : Nat) :
    Sound s uri new (b.step { s with replies := r } (.advance place)) := by
  cases h with
  | before hb ha hp hkeyed hright =>
    exact sound_step_of_changes hc he hr hactive hb ha hp hkeyed hright place
  | between hb ha hp hcat => exact sound_step_of_reacts hc he hr hactive hnew hb ha hp hcat place
  | after hb hc' hp hcat hright =>
    exact sound_step_of_closes hc hs he hr hactive hnew hb hc' hp hcat hright hover place

end Move

/-! ### Runs -/

/-- A run comes out right exactly when the change is not overtaken in it. -/
theorem course_of_change (hc : s.catalogued = true) (hs : s.replies.EngineServes)
    (hcs : s.replies.CatalogServes) (hnew : ∀ spec, new = some spec → spec.uri = uri) :
    Course s Turn.Advances (Overtaken s uri)
      (fun b => b.node.active = true ∧ Sound s uri new b)
      (fun b => b.node.active = true ∧ Doomed s uri new b)
      (fun b => RightAt s b.node uri) where
  keeps b turn hturn h hover := by
    obtain ⟨hactive, hsound⟩ := h
    obtain ⟨place, heq⟩ := hturn.stage
    rw [heq, active_advance]
    exact ⟨hactive, sound_step hc hs hturn.engine hturn.catalog hactive hnew hsound hover place⟩
  fails b h hover := ⟨h.1, doomed_of_overtaken hc hs h.1 hnew h.2 hover hcs⟩
  stays b turn hturn h := by
    obtain ⟨hactive, hdoomed⟩ := h
    obtain ⟨place, heq⟩ := hturn.stage
    rw [heq, active_advance]
    exact ⟨hactive, doomed_step hturn.engine hactive hdoomed place⟩
  right b hdone h := by
    constructor
    · cases h.2 with
      | before hb ha hp hkeyed hright => exact hright
      -- The change would still be under way.
      | between hb ha hp hcat => simp [hdone] at hb
      | after hb hc' hp hcat hright => exact hright
    -- With nothing under way there is nothing that could overtake the change.
    · intro hover
      obtain ⟨_, a, ha, _⟩ := hover
      rw [hdone] at ha
      cases ha
  wrong b hdone h := by
    cases h.2 with
    | told hb hc hx hcat hright hundo =>
      rw [hdone] at hb
      cases hb
    | undone hb hc hcat hwrong => exact hwrong

/-- Let a notice that names a uri arrive at a leading node with a catalog, which keeps every
    spec under its own uri, and with a registry that is right.  Let a flow whose schedule can
    be used be put into the catalog under that uri, or let the uri be deleted, and let the
    stages of both be done in any order, on an engine that serves every call.  When both are
    finished the registry is right under the uri exactly when the change was at no moment
    overtaken by the notice. -/
theorem right_at_end_iff (hc : s.catalogued = true) (hs : s.replies.EngineServes)
    (hcs : s.replies.CatalogServes) (hactive : n.active = true)
    (hkeyed : ∀ a spec, n.catalog.get? a = some spec → spec.uri = a)
    (hright : ∀ a, RightAt s n a) {m : Notice} (hm : m.subject? = some uri) {change : Activity}
    (hchange : Changes s uri new change) {turns : List Turn}
    (hturns : ∀ turn ∈ turns, turn.Advances)
    (hdone : (Busy.run s ⟨n, [.notice m, change]⟩ turns).underway = []) :
    RightAt s (Busy.run s ⟨n, [.notice m, change]⟩ turns).node uri ↔
      ∀ k, ¬ Overtaken s uri (Busy.run s ⟨n, [.notice m, change]⟩ (turns.take k)) := by
  have hstart : Sound s uri new ⟨n, [.notice m, change]⟩ := by
    refine .before (p := some (.notice m)) rfl hchange ?_ (hkeyed uri) (hright uri)
    intro x hx
    cases hx
    exact .inl (.notice hm)
  exact (course_of_change hc hs hcs hchange.keyed).right_iff hturns ⟨hactive, hstart⟩ hdone

private def racedUri : Label := ⟨"flow://h", Eq.refl false⟩

private def racedFlow : Flow := timed racedUri ⟨"1", Eq.refl false⟩ "0 0 * * *"

/-- A node leads, and the flow is in its catalog and scheduled. -/
private def racedLeader : Node :=
  (Node.initial.lead (.plain .reliable) true).obey (.plain .reliable) (.put (.flow racedFlow))

/-- The catalog of the leader and its schedule agree to begin with. -/
private theorem synced_racedLeader : Synced (.plain .reliable) racedLeader :=
  synced_put Replies.reliable_engineServes (synced_start Replies.reliable_catalogServes rfl) rfl

/-- So its registry is right everywhere. -/
private theorem right_racedLeader (a : String) : RightAt (.plain .reliable) racedLeader a :=
  rightAt_iff.2 (synced_racedLeader.mirrors a).1

/-- A notice that the flow was added is taken in while the flow is deleted. -/
private def racingNotice : Busy :=
  ⟨racedLeader, [.notice (.ofAdded .zero "flow://h"), .delete "flow://h"]⟩

/-- The answer from before the deletion is acted on before the node hears of it. -/
theorem right_at_end_heard :
    let s : Setup := .plain .reliable
    let b := racingNotice.run s (stagesAt [0, 0, 0, 1, 0, 0, 0, 0])
    b.underway = [] ∧ b.node.scheduled = [] ∧ RightAt s b.node "flow://h" := by
  intro s b
  have hdone : b.underway = [] := by decide +kernel
  have hno : ∀ k ≤ 8, ¬ Overtaken s "flow://h"
      (racingNotice.run s ((stagesAt [0, 0, 0, 1, 0, 0, 0, 0]).take k)) := by
    decide +kernel
  refine ⟨hdone, by decide +kernel, ?_⟩
  refine (right_at_end_iff rfl Replies.reliable_engineServes Replies.reliable_catalogServes
    (by decide +kernel) synced_racedLeader.keyed right_racedLeader rfl .delete (advances_stagesAt _)
    -- After the last turn the run stays where it is.
    hdone).2 fun k => ?_
  rcases Nat.le_total k 8 with hk | hk
  · exact hno k hk
  · rw [List.take_of_length_le hk]
    exact hno 8 (Nat.le_refl 8)

/-- The flow is deleted, and then it is scheduled again by what the notice was told before. -/
theorem not_right_at_end :
    ¬ ∀ (s : Setup) (n : Node) (uri : String) (new : Option Spec) (m : Notice)
        (change : Activity) (turns : List Turn), s.catalogued = true → s.replies.EngineServes →
      s.replies.CatalogServes → n.active = true →
      (∀ a spec, n.catalog.get? a = some spec → spec.uri = a) → (∀ a, RightAt s n a) →
      m.subject? = some uri → Changes s uri new change → (∀ turn ∈ turns, turn.Advances) →
      (Busy.run s ⟨n, [.notice m, change]⟩ turns).underway = [] →
      RightAt s (Busy.run s ⟨n, [.notice m, change]⟩ turns).node uri := by
  intro h
  have hright := h (.plain .reliable) racedLeader "flow://h" none (.ofAdded .zero "flow://h")
    (.delete "flow://h") (stagesAt [0, 0, 0, 1, 1, 1, 1, 0]) rfl Replies.reliable_engineServes
    Replies.reliable_catalogServes (by decide +kernel) synced_racedLeader.keyed
    right_racedLeader rfl .delete (advances_stagesAt _) (by decide +kernel)
  -- The flow is registered, so the catalog would have to hold it.
  have hheld := ((hright racedFlow).1 (by decide +kernel)).1
  exact absurd hheld (by decide +kernel)

end FlowCadence.Node
