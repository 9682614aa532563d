import FlowCadence.Proofs.Node.Slot
/-! # Notices out of order and more than once

The channel for notices keeps no order, and it may bring a notice twice.  A leading node
can bear that, since it takes no notice at its word: it asks the catalog about the uri that
is named, and then the uri comes to what belongs to the answer (`reconciled`).  To do so
again changes nothing, and notices of other uris do not come near.

So as long as the catalog keeps its answers, what a list of notices makes of registry and
triggers is a matter of which notices are in it.

## Key results

* `obey_notice_cases`: what a leading node may make of a notice
* `slot_obey_notice`, `slot_obeyAll_notices`: what one notice, and what a list of them, makes
  of a uri
* `same_schedule_of_same_notices`: lists with the same notices leave the same schedule -/

namespace FlowCadence

/-- The uri that a notice names, if it names one. -/
def Notice.subject? (m : Notice) : Option String :=
  match m.kind with
  | .added => some m.payload
  | .removed => m.removal.toOption.map (·.1)

namespace Node

variable {s : Setup} {n : Node} {held : String → Option Spec}

/-- As long as its own catalog stays as it is, the node is told of every uri what is held
    there.  A catalog finds specs by their uri, so that is a spec of this uri. -/
structure Finds (s : Setup) (n : Node) (held : String → Option Spec) : Prop where
  answer : ∀ (k : Node) uri, k.catalog = n.catalog → k.answer s uri = .ok (held uri)
  keyed : ∀ uri spec, held uri = some spec → spec.uri = uri

/-- Only the catalog counts. -/
theorem Finds.of_catalog {m : Node} (h : Finds s n held) (hc : m.catalog = n.catalog) :
    Finds s m held where
  answer k uri hk := h.answer k uri (hk.trans hc)
  keyed := h.keyed

/-- A node finds what its own catalog holds, if the catalog serves it and keeps every spec under
    its own uri. -/
theorem Finds.of_serves (hc : s.catalogued = true) (hcs : s.replies.CatalogServes)
    (hkeyed : ∀ uri spec, n.catalog.get? uri = some spec → spec.uri = uri) :
    Finds s n n.catalog.get? where
  answer k uri hk := by rw [Node.answer, if_pos hc, hcs.lookUp, call_catalog, hk]
  keyed := hkeyed

/-- A notice concerns a uri that it names: there is a flow to add if it was added, and
    none left to keep if it was removed. -/
def Concerns (held : String → Option Spec) (uri : String) (m : Notice) : Prop :=
  m.subject? = some uri ∧ (m.kind = .removed ↔ held uri = none)

instance (held : String → Option Spec) (uri : String) (m : Notice) :
    Decidable (Concerns held uri m) :=
  inferInstanceAs (Decidable (_ ∧ _))

/-! ### One notice -/

/-- A leading node adds the spec that it finds, or it unschedules a uri under which it
    finds none, or the notice concerns no uri and nothing comes of it. -/
theorem obey_notice_cases (hactive : n.active = true) (h : Finds s n held) (m : Notice) :
    (∃ spec, Concerns held spec.uri m ∧ held spec.uri = some spec ∧
      n.obey s (.notice m) = (n.asked s spec.uri).add s spec) ∨
    (∃ uri, Concerns held uri m ∧ held uri = none ∧
      n.obey s (.notice m) = (n.asked s uri).unschedule s uri) ∨
    ((∀ uri, ¬ Concerns held uri m) ∧
      ∃ trace, n.obey s (.notice m) = { n with trace }) := by
  have hasked (uri : String) : ∃ trace, n.asked s uri = { n with trace } := by
    rw [asked]
    split <;> exact ⟨_, rfl⟩
  obtain ⟨kind, payload, i⟩ := m
  cases kind with
  | added =>
    have hsubject : Notice.subject? ⟨.added, payload, i⟩ = some payload := rfl
    -- Whether the notice concerns a uri depends on what the catalog holds there.
    rw [obey_added hactive, h.answer n payload rfl]
    cases hfound : held payload with
    | some spec =>
      left
      obtain rfl := h.keyed payload spec hfound
      exact ⟨spec, ⟨hsubject, by simp [hfound]⟩, hfound, rfl⟩
    | none =>
      right; right
      refine ⟨fun uri hc => ?_, ?_⟩
      · obtain ⟨hname, hkind⟩ := hc
        cases hname
        simp [hfound] at hkind
      · obtain ⟨trace, heq⟩ := hasked payload
        rw [heq]
        exact ⟨_, rfl⟩
  | removed =>
    right
    cases hm : Notice.removal ⟨.removed, payload, i⟩ with
    | error refusal =>
      right
      -- A removal that cannot be read names nothing.
      have hsubject : Notice.subject? ⟨.removed, payload, i⟩ = none := by
        simp [Notice.subject?, hm, Except.toOption]
      rw [obey_notice_malformed hactive hm]
      refine ⟨fun uri hc => ?_, ⟨_, rfl⟩⟩
      rw [Concerns, hsubject] at hc
      cases hc.1
    | ok sides =>
      obtain ⟨uri, version⟩ := sides
      have hsubject : Notice.subject? ⟨.removed, payload, i⟩ = some uri := by
        simp [Notice.subject?, hm, Except.toOption]
      rw [obey_removed hactive hm, h.answer n uri rfl]
      cases hfound : held uri with
      | none =>
        left
        exact ⟨uri, ⟨hsubject, by simp [hfound]⟩, hfound, rfl⟩
      | some spec =>
        right
        refine ⟨fun a hc => ?_, hasked uri⟩
        obtain ⟨hname, hkind⟩ := hc
        rw [hsubject] at hname
        cases hname
        simp [hfound] at hkind

/-- No notice changes the leadership. -/
theorem active_obey_notice (hactive : n.active = true) (h : Finds s n held) (m : Notice) :
    (n.obey s (.notice m)).active = true := by
  obtain ⟨spec, -, -, heq⟩ | ⟨uri, -, -, heq⟩ | ⟨-, trace, heq⟩ :=
    obey_notice_cases hactive h m
  · simp [heq, hactive]
  · simp [heq, hactive]
  · simp [heq, hactive]

/-- No notice changes the catalog. -/
theorem catalog_obey_notice (hactive : n.active = true) (h : Finds s n held) (m : Notice) :
    (n.obey s (.notice m)).catalog = n.catalog := by
  obtain ⟨spec, -, -, heq⟩ | ⟨uri, -, -, heq⟩ | ⟨-, trace, heq⟩ :=
    obey_notice_cases hactive h m
  · simp [heq]
  · simp [heq]
  · simp [heq]

/-- A notice reconciles the uri that it concerns, and no other. -/
theorem slot_obey_notice (hactive : n.active = true) (hs : s.replies.EngineServes)
    (h : Finds s n held) (m : Notice) (uri : String) :
    (n.obey s (.notice m)).slot uri =
      if Concerns held uri m then reconciled s (held uri) (n.slot uri) else n.slot uri := by
  -- A notice names one uri at most.
  have hother {a : String} (ha : Concerns held a m) (hne : a ≠ uri) : ¬ Concerns held uri m := by
    intro hc
    exact hne (Option.some.inj (ha.1.symm.trans hc.1))
  obtain ⟨spec, hc, hfound, heq⟩ | ⟨a, hc, hfound, heq⟩ | ⟨hno, trace, heq⟩ :=
    obey_notice_cases hactive h m
  · by_cases hne : spec.uri = uri
    · subst hne
      have haside : (n.asked s spec.uri).aside s = false := aside_of_active (by simp [hactive])
      rw [heq, if_pos hc, hfound, slot_add hs haside, slot_asked]
    · rw [heq, if_neg (hother hc hne), slot_add_of_ne hne, slot_asked]
  · by_cases hne : a = uri
    · subst hne
      rw [heq, if_pos hc, hfound, slot_unschedule hs]
      rfl
    · rw [heq, if_neg (hother hc hne), slot_unschedule_of_ne hne, slot_asked]
  · rw [heq, if_neg (hno uri)]
    rfl

/-! ### Many notices -/

/-- A list of notices reconciles the uris that its notices concern. -/
theorem slot_obeyAll_notices (hs : s.replies.EngineServes) (ms : List Notice)
    (hactive : n.active = true) (h : Finds s n held) (uri : String) :
    (n.obeyAll s (ms.map .notice)).slot uri =
      if ∃ m ∈ ms, Concerns held uri m then reconciled s (held uri) (n.slot uri)
      else n.slot uri := by
  induction ms generalizing n with
  | nil => simp [obeyAll]
  | cons m ms ih =>
    have hrest := ih (active_obey_notice hactive h m)
      (h.of_catalog (catalog_obey_notice hactive h m))
    rw [slot_obey_notice hactive hs h m uri] at hrest
    show ((n.obey s (.notice m)).obeyAll s (ms.map .notice)).slot uri = _
    rw [hrest]
    by_cases hm : Concerns held uri m
    · by_cases hms : ∃ m ∈ ms, Concerns held uri m
      · -- The uri is reconciled again.
        simp [hm, hms, reconciled_reconciled]
      · simp [hm, hms]
    · simp [hm]

/-- Let a leading node take in notices while its catalog keeps its answers and the engine
    serves its calls.  Then another list with the same notices in it, in whatever order and
    however often each of them comes, leaves the same registry and the same triggers. -/
theorem same_schedule_of_same_notices (hactive : n.active = true) (hs : s.replies.EngineServes)
    (h : Finds s n held) {ms ms' : List Notice} (hsame : ∀ m, m ∈ ms ↔ m ∈ ms') :
    (n.obeyAll s (ms.map .notice)).registry = (n.obeyAll s (ms'.map .notice)).registry ∧
      (n.obeyAll s (ms.map .notice)).jobs = (n.obeyAll s (ms'.map .notice)).jobs := by
  have hslot (uri : String) :
      (n.obeyAll s (ms.map .notice)).slot uri = (n.obeyAll s (ms'.map .notice)).slot uri := by
    have hconcern : (∃ m ∈ ms, Concerns held uri m) ↔ ∃ m ∈ ms', Concerns held uri m := by
      simp only [hsame]
    simp only [slot_obeyAll_notices hs _ hactive h, hconcern]
  exact tables_of_slots hslot

private def changedFlow : Flow := timed ⟨"flow://d", Eq.refl false⟩ ⟨"1", Eq.refl false⟩ "0 0 * * *"

/-- A later version, with another schedule. -/
private def changedLater : Flow :=
  timed ⟨"flow://d", Eq.refl false⟩ ⟨"2", Eq.refl false⟩ "30 6 * * *"

private def goneFlow : Flow := timed ⟨"flow://e", Eq.refl false⟩ ⟨"1", Eq.refl false⟩ "0 0 * * *"

/-- A node leads and has not heard yet that one flow has changed and another one is gone. -/
private def behind : Node :=
  ((({ Node.initial with active := true } : Node).stored (.flow changedLater)).add
    (.plain .reliable) (.flow changedFlow)).add (.plain .reliable) (.flow goneFlow)

/-- The catalog of this node answers with what it holds, each spec under its uri. -/
private theorem behind_finds : Finds (.plain .reliable) behind behind.catalog.get? where
  answer k uri hk := by
    -- Its replies are those of the catalog, which has not changed.
    show Except.ok (k.catalog.get? uri) = .ok (behind.catalog.get? uri)
    rw [hk]
  keyed uri spec h := by
    rw [behind, catalog_add, catalog_add] at h
    exact keyed_stored (fun a found hf => by simp [Node.initial] at hf) _ uri spec h

/-- What the node hears of both flows, and a notice that names nothing. -/
private def news : List Notice :=
  [.ofAdded .zero "flow://d", .ofRemoved .zero "flow://e" "1", ⟨.removed, "nothing", .zero⟩]

/-- The same, with the first two notices in the other order, and both of them twice. -/
private def echoed : List Notice :=
  [.ofRemoved .zero "flow://e" "1", .ofAdded .zero "flow://d", .ofRemoved .zero "flow://e" "1",
    ⟨.removed, "nothing", .zero⟩, .ofAdded .zero "flow://d"]

/-- Either way the node gets to the later version of the one flow, and lets go of the other. -/
theorem same_schedule_echoed :
    let s : Setup := .plain .reliable
    let n := behind.obeyAll s (news.map .notice)
    let m := behind.obeyAll s (echoed.map .notice)
    behind.installed = ["flow://d", "flow://e"] ∧ n.installed = ["flow://d"] ∧
      n.registry["flow://d"]? = some changedLater ∧ n.registry = m.registry ∧ n.jobs = m.jobs := by
  intro s n m
  have hnews : ∀ m ∈ news, m ∈ echoed := by decide
  have hechoed : ∀ m ∈ echoed, m ∈ news := by decide
  have hsame := same_schedule_of_same_notices (by decide +kernel) Replies.reliable_engineServes
    behind_finds fun m => ⟨hnews m, hechoed m⟩
  exact ⟨by decide +kernel, by decide +kernel, by decide +kernel, hsame⟩

end Node

end FlowCadence
