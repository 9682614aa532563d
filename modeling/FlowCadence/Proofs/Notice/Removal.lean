import FlowCadence.Notice.Basic
/-! # What notices name

A notice names a version of a flow when it tells of a removal and its payload is the uri, a
colon and the version, with no colon in the version and neither of them blank.  The colon in
the middle is the last one then, so a payload is taken apart in one way at most.  A notice
that names nothing is about an added flow, or its payload has no colon, or one of the two
sides of the last colon is blank.

## Key results

* `names_or_unnamed`: a notice names a version, or there is a reason why it does not
* `Names.removal_eq`, `Unnamed.removal_eq`: what is answered in either case
* `removal_eq_error_iff`: which notices are refused, and with what
* `answered_iff_named`: what a notice is taken to name, and that all others are refused -/

namespace FlowCadence.Notice

variable {n : Notice} {uri version : String} {refusal : Refusal}

/-- The notice tells that a version of a flow was removed. -/
structure Names (n : Notice) (uri version : String) : Prop where
  kind_eq : n.kind = .removed
  payload_eq : n.payload = uri ++ ":" ++ version
  version_plain : ':' ∉ version.toList
  uri_ne : Text.trim uri ≠ ""
  version_ne : Text.trim version ≠ ""

/-- Why a notice names nothing, and what it is refused with. -/
inductive Unnamed (n : Notice) : Refusal → Prop where
  | added (kind_eq : n.kind = .added) : Unnamed n (.notARemoval n.id)
  | noColon (kind_eq : n.kind = .removed) (payload_plain : ':' ∉ n.payload.toList) :
      Unnamed n (.malformed n.payload)
  | blankSide {uri version : String} (kind_eq : n.kind = .removed)
      (payload_eq : n.payload = uri ++ ":" ++ version) (version_plain : ':' ∉ version.toList)
      (side_eq : Text.trim uri = "" ∨ Text.trim version = "") : Unnamed n (.malformed n.payload)

/-! ### Naming something or nothing -/

/-- A text has no colon, or its last colon stands in front of a part without one. -/
theorem plain_or_sides (payload : String) : ':' ∉ payload.toList ∨
    ∃ uri version : String, payload = uri ++ ":" ++ version ∧ ':' ∉ version.toList := by
  cases hcut : Text.cutLast ':' payload.toList with
  | none => exact .inl (Text.cutLast_eq_none_iff.1 hcut)
  | some sides =>
    obtain ⟨before, after⟩ := sides
    exact .inr ⟨String.ofList before, String.ofList after,
      cutLast_colon_eq_some_iff.1 (by simpa using hcut)⟩

/-- A notice names a version of a flow, or there is a reason why it does not. -/
theorem names_or_unnamed (n : Notice) :
    (∃ uri version, n.Names uri version) ∨ ∃ refusal, n.Unnamed refusal := by
  cases hkind : n.kind with
  | added => exact .inr ⟨_, .added hkind⟩
  | removed =>
    rcases plain_or_sides n.payload with hplain | ⟨uri, version, heq, hplain⟩
    · exact .inr ⟨_, .noColon hkind hplain⟩
    · by_cases hside : Text.trim uri = "" ∨ Text.trim version = ""
      · exact .inr ⟨_, .blankSide hkind heq hplain hside⟩
      · obtain ⟨huri, hversion⟩ := not_or.1 hside
        exact .inl ⟨uri, version, hkind, heq, hplain, huri, hversion⟩

/-! ### What is answered -/

/-- What a notice names is answered. -/
theorem Names.removal_eq (h : n.Names uri version) : n.removal = .ok (uri, version) := by
  obtain ⟨kind, payload, id⟩ := n
  obtain ⟨rfl, rfl, hplain, huri, hversion⟩ := h
  rw [ne_eq, Text.trim_eq_empty_iff, Bool.not_eq_true] at huri hversion
  exact removal_eq_ok_iff.2 ⟨rfl, hplain, huri, hversion⟩

/-- A notice that names nothing is refused, with the reason why. -/
theorem Unnamed.removal_eq (h : n.Unnamed refusal) : n.removal = .error refusal := by
  obtain ⟨kind, payload, id⟩ := n
  cases h with
  | added hkind =>
    cases hkind
    rfl
  | noColon hkind hplain =>
    cases hkind
    simp only [removal, Text.cutLast_eq_none_iff.2 hplain]
  | @blankSide uri version hkind heq hplain hside =>
    cases hkind
    have hcut := cutLast_colon_eq_some_iff.2 ⟨heq, hplain⟩
    rw [Text.trim_eq_empty_iff, Text.trim_eq_empty_iff, Text.isBlank, Text.isBlank] at hside
    simp only [removal, hcut, Bool.or_eq_true, if_pos hside]

/-- What is answered is what the notice names. -/
theorem removal_eq_ok_iff_names : n.removal = .ok (uri, version) ↔ n.Names uri version := by
  constructor
  · -- What a notice names and why it names nothing are answered differently.
    intro hok
    rcases names_or_unnamed n with ⟨_, _, hnames⟩ | ⟨_, hunnamed⟩
    · cases hnames.removal_eq.symm.trans hok
      exact hnames
    · cases hunnamed.removal_eq.symm.trans hok
  · exact Names.removal_eq

/-- A notice is refused with the reason why it names nothing. -/
theorem removal_eq_error_iff : n.removal = .error refusal ↔ n.Unnamed refusal := by
  constructor
  · intro herror
    rcases names_or_unnamed n with ⟨_, _, hnames⟩ | ⟨_, hunnamed⟩
    · cases hnames.removal_eq.symm.trans herror
    · cases hunnamed.removal_eq.symm.trans herror
      exact hunnamed
  · exact Unnamed.removal_eq

/-- A notice that names a version of a flow is, but for its identifier, the notice that this
    version was removed. -/
theorem Names.ofRemoved_eq (h : n.Names uri version) (id : Identifier) :
    ofRemoved id uri version = { n with id } := by
  rw [ofRemoved, h.kind_eq, h.payload_eq]

/-- Whatever a notice is refused with, it is reported as a fault in the input. -/
theorem Refusal.kind_fault (refusal : Refusal) : refusal.fault.kind = .validation := by
  cases refusal <;> rfl

/-- A uri and a version are answered exactly when the notice names them, and then a notice of
    that removal has the same payload.  Every other notice is refused as a fault in the
    input. -/
theorem answered_iff_named (n : Notice) :
    (∀ uri version, n.removal = .ok (uri, version) ↔ n.Names uri version) ∧
    (∀ uri version, n.removal = .ok (uri, version) →
      ∀ id, ofRemoved id uri version = { n with id }) ∧
    ((∀ uri version, ¬ n.Names uri version) ↔
      ∃ refusal, n.removal = .error refusal ∧ refusal.fault.kind = .validation) := by
  refine ⟨fun _ _ => removal_eq_ok_iff_names,
    fun _ _ hok => (removal_eq_ok_iff_names.1 hok).ofRemoved_eq, ?_, ?_⟩
  · intro hnone
    rcases names_or_unnamed n with ⟨uri, version, hnames⟩ | ⟨refusal, hunnamed⟩
    · exact absurd hnames (hnone uri version)
    · exact ⟨refusal, hunnamed.removal_eq, refusal.kind_fault⟩
  · rintro ⟨_, herror, -⟩ _ _ hnames
    cases hnames.removal_eq.symm.trans herror

/-- Colons in front of the last one belong to the uri, and a no-break space is no version. -/
theorem removal_behind_last_colon :
    removal ⟨.removed, "flow://a:b:7", .zero⟩ = .ok ("flow://a:b", "7") ∧
      ofRemoved .zero "flow://a:b" "7" = ⟨.removed, "flow://a:b:7", .zero⟩ ∧
      ∃ refusal, removal ⟨.removed, "flow://a:\u00a0", .zero⟩ = .error refusal ∧
        refusal.fault.kind = .validation := by
  obtain ⟨htaken, hrebuilt, -⟩ := answered_iff_named ⟨.removed, "flow://a:b:7", .zero⟩
  obtain ⟨htaken', -, hrefused⟩ := answered_iff_named ⟨.removed, "flow://a:\u00a0", .zero⟩
  have hok := (htaken "flow://a:b" "7").2
    ⟨rfl, by decide +kernel, by decide +kernel, by decide +kernel, by decide +kernel⟩
  have hunnamed := @Unnamed.blankSide ⟨.removed, "flow://a:\u00a0", .zero⟩ "flow://a" "\u00a0" rfl
    (by decide +kernel) (by decide +kernel) (.inr (by decide +kernel))
  refine ⟨hok, hrebuilt _ _ hok .zero, hrefused.1 fun uri version hnames => ?_⟩
  cases hunnamed.removal_eq.symm.trans ((htaken' uri version).2 hnames)

end FlowCadence.Notice
