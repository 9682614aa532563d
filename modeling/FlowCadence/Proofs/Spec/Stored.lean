import FlowCadence.Proofs.Spec.RoundTrip
import FlowCadence.Spec.Json
/-! # Specs stored and restored

A row holds everything that a spec consists of, but a spec that is restored from its row is made
anew, and making a flow drops a blank description.  Specs that were made give themselves back.
So does a spec that was read from a text, unless it is a flow with a blank description, which
reading leaves in place.

## Key results

* `Spec.Row.toSpec_ofSpec`: a row gives back the spec without a flow's blank description
* `Spec.Row.restored_iff`: when that is the very same spec
-/

namespace FlowCadence

/-! ### Made anew -/

/-- The flow as it would have been made: without a description that is blank. -/
def Flow.tidied (f : Flow) : Flow :=
  { f with description := f.description.filter fun d => !Text.isBlank d }

/-- The flow was made from its own parts. -/
theorem Flow.make_parts (f : Flow) :
    Flow.make f.uri.text f.version.text f.description f.properties = .ok f.tidied := by
  rw [make, Label.ofText_text, Label.ofText_text]
  rfl

/-- Flows that were made are as they would have been made. -/
theorem Flow.tidied_of_make {uri version : String} {description : Option String} {ps : Properties}
    {f : Flow} (h : Flow.make uri version description ps = .ok f) : f.tidied = f := by
  rw [make] at h
  -- A blank uri is refused.
  cases huri : Label.ofText uri with
  | error fault =>
    rw [huri] at h
    cases h
  | ok u =>
    -- So is a blank version.
    cases hversion : Label.ofText version with
    | error fault =>
      rw [huri, hversion] at h
      cases h
    | ok v =>
      -- The description was checked once, and to check it again does nothing.
      rw [huri, hversion] at h
      cases h
      simp [tidied, Option.filter_filter]

/-- A topology is made from its own parts. -/
theorem Topology.make_parts (t : Topology) :
    Topology.make t.uri.text t.version.text t.description = .ok t := by
  rw [make, Label.ofText_text, Label.ofText_text]
  rfl

namespace Spec

/-- The spec as it would have been made. -/
def tidied : Spec → Spec
  | .flow f => .flow f.tidied
  | .topology t => .topology t

/-- The spec is no flow with a blank description. -/
def IsTidy (s : Spec) : Prop := ∀ f ∈ s.flow?, ∀ d ∈ f.description, Text.isBlank d = false

instance (s : Spec) : Decidable s.IsTidy :=
  inferInstanceAs (Decidable (∀ f ∈ s.flow?, ∀ d ∈ f.description, Text.isBlank d = false))

/-- Nothing is tidied in a spec without a blank description of a flow. -/
theorem tidied_eq_self_iff {s : Spec} : s.tidied = s ↔ s.IsTidy := by
  cases s with
  | topology t => exact iff_of_true rfl nofun
  | flow f =>
    obtain ⟨uri, version, description, ps⟩ := f
    cases description with
    | none => simp [tidied, Flow.tidied, IsTidy, flow?]
    | some d => cases h : Text.isBlank d <;> simp [tidied, Flow.tidied, IsTidy, flow?, h]

/-- The spec was made from its parts, not read from a text. -/
inductive Made : Spec → Prop where
  | flow {uri version : String} {description : Option String} {ps : Properties} {f : Flow}
    (h : Flow.make uri version description ps = .ok f) : Made (.flow f)
  | topology {uri version : String} {description : Option String} {t : Topology}
    (h : Topology.make uri version description = .ok t) : Made (.topology t)

/-- What was made is tidy, since making tidies. -/
theorem Made.isTidy {s : Spec} (h : s.Made) : s.IsTidy := by
  rw [← tidied_eq_self_iff]
  cases h with
  | flow hmake => rw [tidied, Flow.tidied_of_make hmake]
  | topology _ => rfl

namespace Row

/-! ### Rows -/

/-- A row gives back the spec that it was written for, except for a flow's blank description. -/
theorem toSpec_ofSpec (s : Spec) : (ofSpec s).toSpec = .ok s.tidied := by
  cases s with
  | flow f =>
    -- The properties of the row are those that were written.
    have hproperties : f.properties.toJson.properties? = some f.properties :=
      Json.properties?_eq_some_iff.2 (Json.holdsProperties_toJson f.properties)
    have hkind : Kind.ofLabel? (ofSpec (.flow f)).kind = some .flow := Kind.ofLabel?_label .flow
    rw [toSpec, hkind]
    simp only [ofSpec, hproperties, Spec.uri, Spec.version, Spec.description, Flow.make_parts]
    rfl
  | topology t =>
    have hkind : Kind.ofLabel? (ofSpec (.topology t)).kind = some .topology :=
      Kind.ofLabel?_label .topology
    rw [toSpec, hkind]
    simp only [ofSpec, Spec.uri, Spec.version, Spec.description, Topology.make_parts]
    rfl

/-- A row gives back the spec that would have been made from the same parts.  That is the spec
    itself unless it is a flow with a blank description, and no spec that was made is such a
    flow. -/
theorem restored_iff (s : Spec) :
    (ofSpec s).toSpec = .ok s.tidied ∧ ((ofSpec s).toSpec = .ok s ↔ s.IsTidy) ∧
      (s.Made → s.IsTidy) := by
  refine ⟨toSpec_ofSpec s, ?_, Made.isTidy⟩
  -- The two specs agree when nothing was tidied.
  rw [toSpec_ofSpec, Except.ok.injEq, tidied_eq_self_iff]

/-- A flow with this description, as an array. -/
private def flowText (description : String) : String :=
  "[\"flow\",\"flow://A\",\"1\",\"" ++ description ++ "\",\x7b\"a\":\"1\"\x7d]"

private def flowSpec (description : Option String) : Flow where
  uri := ⟨"flow://A", Eq.refl false⟩
  version := ⟨"1", Eq.refl false⟩
  description := description
  properties := .ofList [("a", "1")]

private def blankTopology : Topology where
  uri := ⟨"topology://A", Eq.refl false⟩
  version := ⟨"1", Eq.refl false⟩
  description := some " "

/-- A blank description is dropped from a flow that is made and kept in a topology, and a
    description that is not blank is kept in a flow that is read. -/
theorem restored_nightly :
    Flow.make "flow://A" "1" (some " ") (.ofList [("a", "1")]) = .ok (flowSpec none) ∧
      (ofSpec (.flow (flowSpec none))).toSpec = .ok (.flow (flowSpec none)) ∧
      Topology.make "topology://A" "1" (some " ") = .ok blankTopology ∧
      (ofSpec (.topology blankTopology)).toSpec = .ok (.topology blankTopology) ∧
      decode (flowText "nightly") = some (.flow (flowSpec (some "nightly"))) ∧
      (ofSpec (.flow (flowSpec (some "nightly")))).toSpec =
        .ok (.flow (flowSpec (some "nightly"))) := by
  -- What is restored here was made, or read with a description that is not blank.
  have hmade : Flow.make "flow://A" "1" (some " ") (.ofList [("a", "1")]) = .ok (flowSpec none) :=
    rfl
  have htmade : Topology.make "topology://A" "1" (some " ") = .ok blankTopology := rfl
  obtain ⟨-, hflow, hftidy⟩ := restored_iff (.flow (flowSpec none))
  obtain ⟨-, htopology, httidy⟩ := restored_iff (.topology blankTopology)
  obtain ⟨-, hread, -⟩ := restored_iff (.flow (flowSpec (some "nightly")))
  exact ⟨hmade, hflow.2 (hftidy (.flow hmade)), htmade, htopology.2 (httidy (.topology htmade)),
    by decide +kernel, hread.2 (by decide)⟩

/-- A flow that is read with a blank description is restored without one. -/
theorem not_restored :
    ¬ ∀ (text : String) (s : Spec), decode text = some s → (ofSpec s).toSpec = .ok s := by
  intro h
  -- The text is read with its blank description.
  have hdecode : decode (flowText " ") = some (.flow (flowSpec (some " "))) := by decide +kernel
  have hrestored := h _ _ hdecode
  rw [toSpec_ofSpec, Except.ok.injEq, tidied_eq_self_iff] at hrestored
  exact absurd hrestored (by decide)

end Row

end Spec

end FlowCadence
