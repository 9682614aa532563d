import FlowCadence.Proofs.Json.RoundTrip
import FlowCadence.Spec.Json
/-! # Specs written and read back

The reader of specs takes more than the writer makes: members in any order and members that it
does not know, a missing description, properties whose names repeat, and arrays.  `Describes`
says which values describe which specs.  Every shape goes through the same labels, so none of
them yields a spec with a blank uri or version.

## Key results

* `Json.properties?_eq_some_iff`: which objects hold which properties
* `Spec.ofJson?_eq_some_iff`: which values are read as which specs
* `Spec.decode_eq_some_iff`: the same of texts
* `Spec.reads_back`: what is written is read back, and so is whatever was read
-/

namespace FlowCadence

namespace Json

/-! ### Members -/

/-- No member has the name. -/
def Lacks (name : String) (ms : List (Str × Json)) : Prop := ∀ m ∈ ms, m.1 ≠ some name

/-- One member has the name, and `j` is its value. -/
def HasOnce (name : String) (ms : List (Str × Json)) (j : Json) : Prop :=
  ∃ before after, ms = before ++ (some name, j) :: after ∧ Lacks name before ∧ Lacks name after

/-- The members hold a text under the name, or null, which may be left out. -/
def HasText? (name : String) (ms : List (Str × Json)) (t : Option String) : Prop :=
  HasOnce name ms (.ofText? t) ∨ Lacks name ms ∧ t = none

/-- A member that is a text. -/
def textMember (e : String × String) : Str × Json := (some e.1, .string (some e.2))

/-- An object of texts that holds the properties: of members with one name the last counts. -/
def HoldsProperties (j : Json) (ps : Properties) : Prop :=
  ∃ entries : List (String × String), j = .object (entries.map textMember) ∧
    ∀ name, ps[name]? = entries.reverse.lookup name

variable {name : String} {ms : List (Str × Json)} {j : Json}

/-- No member is left when those with the name are picked out. -/
theorem lacks_iff : Lacks name ms ↔ (ms.filter fun m => m.1 = some name) = [] := by
  simp [Lacks, List.filter_eq_nil_iff]

/-- One is left, and it is the member. -/
theorem hasOnce_iff :
    HasOnce name ms j ↔ (ms.filter fun m => m.1 = some name) = [(some name, j)] := by
  simp only [HasOnce, lacks_iff, List.filter_eq_cons_iff, decide_eq_true_eq, List.filter_eq_nil_iff,
    true_and]

/-- A field is missing when no member has its name. -/
theorem field?_eq_some_none_iff : field? name ms = some none ↔ Lacks name ms := by
  rw [field?, lacks_iff]
  -- No member has the name, or one has, or more than one.
  split
  · next heq => simp only [heq]
  · next m heq => simp [heq]
  · next hnil _ => exact iff_of_false nofun hnil

/-- A field is found when one member has its name. -/
theorem field?_eq_some_some_iff : field? name ms = some (some j) ↔ HasOnce name ms j := by
  rw [field?, hasOnce_iff]
  split
  · next heq => simp [heq]
  · next m heq =>
    -- The member that is left by the filter has the name.
    have hm : m.1 = some name := by
      have hmem : m ∈ ms.filter fun m => m.1 = some name := by simp [heq]
      simpa using (List.mem_filter.1 hmem).2
    obtain ⟨key, value⟩ := m
    simp_all
  · next hone =>
    simp only [reduceCtorEq, false_iff]
    exact fun h => hone _ h

/-- A required field is one that is found. -/
theorem requiredField?_eq_some_iff : requiredField? name ms = some j ↔ HasOnce name ms j := by
  rw [requiredField?, Option.join_eq_some_iff, field?_eq_some_some_iff]

/-- A text is read as a label when it is the text of that label. -/
theorem label?_eq_some_iff {l : Label} : j.label? = some l ↔ j = .string (some l.text) := by
  cases j with
  | string t =>
    simp only [label?, text?, Option.bind_eq_some_iff, Label.ofText?_eq_some_iff, string.injEq]
    simp
  | _ => simp [label?, text?]

/-- A text, or none in place of it, is read as it was written. -/
theorem optionalText?_eq_some_iff {t : Option String} :
    j.optionalText? = some t ↔ j = .ofText? t := by
  cases t with
  | none =>
    cases j with
    | string u => cases u <;> simp [optionalText?, ofText?]
    | _ => simp [optionalText?, ofText?]
  | some s =>
    cases j with
    | string u => cases u <;> simp [optionalText?, ofText?]
    | _ => simp [optionalText?, ofText?]

/-- A description that is looked up among members. -/
theorem field?_optionalText?_iff {t : Option String} :
    (∃ d, field? name ms = some d ∧ d.elim (some none) optionalText? = some t) ↔
      HasText? name ms t := by
  constructor
  -- It is missing and counts as none, or it is there and is read.
  · rintro ⟨d, hfield, ht⟩
    cases d with
    | none => exact .inr ⟨field?_eq_some_none_iff.1 hfield, (Option.some.inj ht).symm⟩
    | some j =>
      rw [Option.elim_some, optionalText?_eq_some_iff] at ht
      exact .inl (field?_eq_some_some_iff.1 (ht ▸ hfield))
  · rintro (honce | ⟨hlacks, rfl⟩)
    · exact ⟨_, field?_eq_some_some_iff.2 honce, optionalText?_eq_some_iff.2 rfl⟩
    · exact ⟨none, field?_eq_some_none_iff.2 hlacks, rfl⟩

/-! ### Properties -/

/-- The entries in their order, each in place of those before it under the same name. -/
private def enter (entries : List (String × String)) (ps : Properties) : Properties :=
  entries.foldl (fun ps e => ps.insert e.1 e.2) ps

/-- What is entered last under a name is what counts. -/
private theorem getElem?_enter (entries : List (String × String)) (ps : Properties)
    (name : String) : (enter entries ps)[name]? = (entries.reverse.lookup name).or ps[name]? := by
  induction entries generalizing ps with
  | nil => rfl
  -- The first entry counts if none behind it has the name.
  | cons e entries ih =>
    rw [enter, List.foldl_cons, ← enter, ih, Table.lookUp_insert, List.reverse_cons,
      List.lookup_append, List.lookup_singleton, Option.or_assoc]
    by_cases h : e.1 = name
    · simp [h]
    · simp [h, Ne.symm h]

/-- Members that are texts are entered one after another. -/
private theorem memberProperties?_map (entries : List (String × String)) (ps : Properties) :
    memberProperties? (entries.map textMember) ps = some (enter entries ps) := by
  induction entries generalizing ps with
  | nil => rfl
  | cons e entries ih => exact ih (ps.insert e.1 e.2)

/-- What is read as properties is made of texts. -/
private theorem eq_map_of_memberProperties? {ps qs : Properties}
    (h : memberProperties? ms ps = some qs) :
    ∃ entries : List (String × String), ms = entries.map textMember := by
  induction ms generalizing ps with
  | nil => exact ⟨[], rfl⟩
  | cons m ms ih =>
    match m with
    | (some k, .string (some v)) =>
      obtain ⟨entries, rfl⟩ := ih h
      exact ⟨(k, v) :: entries, rfl⟩
    -- Whatever else a member is, it is refused.
    | (none, _) | (some _, .string none) | (some _, .null) | (some _, .bool _)
    | (some _, .number _) | (some _, .array _) | (some _, .object _) => cases h

/-- Objects of texts are read as the properties that they hold. -/
theorem properties?_eq_some_iff {ps : Properties} :
    j.properties? = some ps ↔ j.HoldsProperties ps := by
  -- The object is read as its entries.
  have hentries (entries : List (String × String)) :
      (Json.object (entries.map textMember)).properties? = some (enter entries ∅) :=
    memberProperties?_map entries ∅
  have hlast (entries : List (String × String)) (name : String) :
      (enter entries ∅)[name]? = entries.reverse.lookup name := by
    rw [getElem?_enter]
    simp
  constructor
  -- An object that is read has members that are texts.
  · intro h
    cases j with
    | object ms =>
      obtain ⟨entries, rfl⟩ := eq_map_of_memberProperties? h
      rw [hentries, Option.some.injEq] at h
      subst h
      exact ⟨entries, rfl, hlast entries⟩
    | _ => cases h
  -- Both have the last entry under each name.
  · rintro ⟨entries, rfl, hps⟩
    rw [hentries, Option.some.injEq]
    apply Std.ExtTreeMap.ext_getElem?
    intro name
    rw [hlast, hps]

/-- The properties that are written are held. -/
theorem holdsProperties_toJson (ps : Properties) : ps.toJson.HoldsProperties ps := by
  refine ⟨ps.toList, rfl, fun name => ?_⟩
  cases hlookup : ps.toList.reverse.lookup name with
  -- The entry is in the list of the properties.
  | some v =>
    obtain ⟨before, after, heq, -⟩ := List.lookup_eq_some_iff.1 hlookup
    have hmem : (name, v) ∈ ps.toList := by
      rw [← List.mem_reverse, heq]
      simp
    exact Std.ExtTreeMap.mem_toList_iff_getElem?_eq_some.1 hmem
  -- Under a name that is not there nothing was written.
  | none =>
    rw [Option.eq_none_iff_forall_ne_some]
    intro v hv
    have hmem : (name, v) ∈ ps.toList.reverse :=
      List.mem_reverse.2 (Std.ExtTreeMap.mem_toList_iff_getElem?_eq_some.2 hv)
    simpa using List.lookup_eq_none_iff.1 hlookup _ hmem

end Json

namespace Spec

/-! ### Shapes -/

/-- The values that describe a spec: objects with its members, once each and in any order,
    among members of other names, and arrays that begin with the kind. -/
inductive Describes : Json → Spec → Prop
  | flowObject {ms : List (Json.Str × Json)} {f : Flow} {ps : Json}
    (kind : Json.HasOnce "kind" ms (.string (some "flow")))
    (uri : Json.HasOnce "uri" ms (.string (some f.uri.text)))
    (version : Json.HasOnce "version" ms (.string (some f.version.text)))
    (description : Json.HasText? "description" ms f.description)
    (properties : Json.HasOnce "properties" ms ps) (holds : ps.HoldsProperties f.properties) :
    Describes (.object ms) (.flow f)
  | topologyObject {ms : List (Json.Str × Json)} {t : Topology}
    (kind : Json.HasOnce "kind" ms (.string (some "topology")))
    (uri : Json.HasOnce "uri" ms (.string (some t.uri.text)))
    (version : Json.HasOnce "version" ms (.string (some t.version.text)))
    (description : Json.HasText? "description" ms t.description) :
    Describes (.object ms) (.topology t)
  | flowArray {f : Flow} {ps : Json} (holds : ps.HoldsProperties f.properties) :
    Describes (.array [.string (some "flow"), .string (some f.uri.text),
      .string (some f.version.text), .ofText? f.description, ps]) (.flow f)
  | topologyArray {t : Topology} :
    Describes (.array [.string (some "topology"), .string (some t.uri.text),
      .string (some t.version.text), .ofText? t.description]) (.topology t)

/-- Fields in order are read as the flow that they hold. -/
theorem flowOfFields?_eq_some_iff {uri version ps : Json} {description : Option Json} {f : Flow} :
    flowOfFields? uri version description ps = some f ↔
      uri = .string (some f.uri.text) ∧ version = .string (some f.version.text) ∧
        description.elim (some none) Json.optionalText? = some f.description ∧
        ps.HoldsProperties f.properties := by
  obtain ⟨u, v, d, qs⟩ := f
  -- The fields are read one by one, and each of them gives a part of the flow.
  simp only [flowOfFields?, bind, pure, Option.bind_eq_some_iff, Json.label?_eq_some_iff,
    Json.properties?_eq_some_iff, Option.some.injEq, Flow.mk.injEq]
  constructor
  · rintro ⟨_, huri, _, hversion, _, hdescription, _, hproperties, rfl, rfl, rfl, rfl⟩
    exact ⟨huri, hversion, hdescription, hproperties⟩
  · rintro ⟨huri, hversion, hdescription, hproperties⟩
    exact ⟨_, huri, _, hversion, _, hdescription, _, hproperties, rfl, rfl, rfl, rfl⟩

/-- Fields in order are read as the topology that they hold. -/
theorem topologyOfFields?_eq_some_iff {uri version : Json} {description : Option Json}
    {t : Topology} :
    topologyOfFields? uri version description = some t ↔
      uri = .string (some t.uri.text) ∧ version = .string (some t.version.text) ∧
        description.elim (some none) Json.optionalText? = some t.description := by
  obtain ⟨u, v, d⟩ := t
  simp only [topologyOfFields?, bind, pure, Option.bind_eq_some_iff, Json.label?_eq_some_iff,
    Option.some.injEq, Topology.mk.injEq]
  constructor
  · rintro ⟨_, huri, _, hversion, _, hdescription, rfl, rfl, rfl⟩
    exact ⟨huri, hversion, hdescription⟩
  · rintro ⟨huri, hversion, hdescription⟩
    exact ⟨_, huri, _, hversion, _, hdescription, rfl, rfl, rfl⟩

/-- The objects that are read as a spec are those that describe it. -/
private theorem ofJson?_object_iff {ms : List (Json.Str × Json)} {s : Spec} :
    ofJson? (.object ms) = some s ↔ Describes (.object ms) s := by
  constructor
  · intro h
    simp only [ofJson?, bind, pure, Option.bind_eq_some_iff, Json.requiredField?_eq_some_iff] at h
    obtain ⟨kind, hkind, label, hlabel, uri, huri, version, hversion, description, hdescription,
      hspec⟩ := h
    -- The kind was read as a text, so that is what it is.
    obtain rfl : kind = .string (some label) := by
      cases kind <;> simp_all [Json.text?]
    split at hspec
    -- A flow has properties as well.
    · next hflow =>
      obtain rfl := Kind.ofLabel?_eq_some_iff.1 hflow
      simp only [Option.bind_eq_some_iff, flowOfFields?_eq_some_iff, Option.some.injEq] at hspec
      obtain ⟨ps, hps, _, rfl, _, rfl, f, ⟨rfl, rfl, ht, hholds⟩, rfl⟩ := hspec
      exact .flowObject hkind (Json.field?_eq_some_some_iff.1 huri)
        (Json.field?_eq_some_some_iff.1 hversion)
        (Json.field?_optionalText?_iff.1 ⟨_, hdescription, ht⟩)
        (Json.requiredField?_eq_some_iff.1 hps) hholds
    -- A topology has none.
    · next htopology =>
      obtain rfl := Kind.ofLabel?_eq_some_iff.1 htopology
      simp only [Option.bind_eq_some_iff, topologyOfFields?_eq_some_iff, Option.some.injEq] at hspec
      obtain ⟨_, rfl, _, rfl, t, ⟨rfl, rfl, ht⟩, rfl⟩ := hspec
      exact .topologyObject hkind (Json.field?_eq_some_some_iff.1 huri)
        (Json.field?_eq_some_some_iff.1 hversion)
        (Json.field?_optionalText?_iff.1 ⟨_, hdescription, ht⟩)
    · cases hspec
  · intro h
    cases h with
    -- The other way round, the fields are found and are what is wanted.
    | flowObject hkind huri hversion hdescription hps hholds =>
      obtain ⟨d, hd, ht⟩ := Json.field?_optionalText?_iff.2 hdescription
      have hfields := flowOfFields?_eq_some_iff.2 ⟨rfl, rfl, ht, hholds⟩
      simp [ofJson?, Json.requiredField?_eq_some_iff.2 hkind, Json.text?,
        Json.field?_eq_some_some_iff.2 huri, Json.field?_eq_some_some_iff.2 hversion, hd,
        Kind.ofLabel?, Json.requiredField?_eq_some_iff.2 hps, hfields]
    | topologyObject hkind huri hversion hdescription =>
      obtain ⟨d, hd, ht⟩ := Json.field?_optionalText?_iff.2 hdescription
      have hfields := topologyOfFields?_eq_some_iff.2 ⟨rfl, rfl, ht⟩
      simp [ofJson?, Json.requiredField?_eq_some_iff.2 hkind, Json.text?,
        Json.field?_eq_some_some_iff.2 huri, Json.field?_eq_some_some_iff.2 hversion, hd,
        Kind.ofLabel?, hfields]

/-- The arrays that are read as a spec are those that describe it. -/
private theorem ofJson?_array_iff {js : List Json} {s : Spec} :
    ofJson? (.array js) = some s ↔ Describes (.array js) s := by
  constructor
  · intro h
    unfold ofJson? at h
    -- The array is too short or too long for its kind, or it is one of the two.
    split at h
    · next heq => cases heq
    -- It has four items, so it is a topology.
    · next kind uri version description heq =>
      obtain rfl := Json.array.inj heq
      obtain ⟨rfl, h⟩ := Option.ite_none_right_eq_some.1 h
      obtain ⟨t, ht, rfl⟩ := Option.map_eq_some_iff.1 h
      obtain ⟨rfl, rfl, hdescription⟩ := topologyOfFields?_eq_some_iff.1 ht
      rw [Option.elim_some, Json.optionalText?_eq_some_iff] at hdescription
      exact hdescription ▸ .topologyArray
    -- It has five, so it is a flow.
    · next kind uri version description ps heq =>
      obtain rfl := Json.array.inj heq
      obtain ⟨rfl, h⟩ := Option.ite_none_right_eq_some.1 h
      obtain ⟨f, hf, rfl⟩ := Option.map_eq_some_iff.1 h
      obtain ⟨rfl, rfl, hdescription, hholds⟩ := flowOfFields?_eq_some_iff.1 hf
      rw [Option.elim_some, Json.optionalText?_eq_some_iff] at hdescription
      exact hdescription ▸ .flowArray hholds
    · cases h
  · intro h
    cases h with
    | @flowArray f ps hholds =>
      have hfields : flowOfFields? (.string (some f.uri.text)) (.string (some f.version.text))
          (some (.ofText? f.description)) ps = some f :=
        flowOfFields?_eq_some_iff.2 ⟨rfl, rfl, Json.optionalText?_eq_some_iff.2 rfl, hholds⟩
      simp [ofJson?, Kind.label, hfields]
    | @topologyArray t =>
      have hfields : topologyOfFields? (.string (some t.uri.text)) (.string (some t.version.text))
          (some (.ofText? t.description)) = some t :=
        topologyOfFields?_eq_some_iff.2 ⟨rfl, rfl, Json.optionalText?_eq_some_iff.2 rfl⟩
      simp [ofJson?, Kind.label, hfields]

/-- The values that are read as a spec are those that describe it. -/
theorem ofJson?_eq_some_iff {j : Json} {s : Spec} : ofJson? j = some s ↔ Describes j s := by
  cases j with
  | object ms => exact ofJson?_object_iff
  | array js => exact ofJson?_array_iff
  -- No other value is read as a spec.
  | _ => exact iff_of_false nofun nofun

/-- A text is read as the spec that its value describes, if the value is within the limits. -/
theorem decode_eq_some_iff {text : String} {s : Spec} :
    decode text = some s ↔
      ∃ j, Json.read text = some j ∧ j.plainWithin maxDepth = true ∧ Describes j s := by
  simp only [decode, bind, Option.bind_eq_some_iff, Option.ite_none_right_eq_some,
    ofJson?_eq_some_iff]

/-! ### Round trip -/

/-- What is written describes the spec. -/
theorem describes_toJson (s : Spec) : Describes s.toJson s := by
  cases s with
  -- The members of a flow have different names.
  | flow f =>
    refine .flowObject ?_ ?_ ?_ (.inl ?_) ?_
      (Json.holdsProperties_toJson f.properties) <;>
    simp [Json.hasOnce_iff]
  | topology t =>
    refine .topologyObject ?_ ?_ ?_ (.inl ?_) <;> simp [Json.hasOnce_iff]

/-- Members that are texts are no deeper than their object. -/
private theorem membersPlainWithin_map (d : Nat) (entries : List (String × String)) :
    Json.membersPlainWithin d (entries.map Json.textMember) = true := by
  induction entries with
  | nil => rfl
  | cons e entries ih =>
    rw [List.map_cons, Json.textMember, Json.membersPlainWithin, ih]
    simp [Json.plainWithin]

/-- What is written is within the limits: the properties are the only value in another. -/
theorem plainWithin_toJson (s : Spec) : s.toJson.plainWithin maxDepth = true := by
  -- A text or its absence is at the last depth.
  have htext (t : Option String) (d : Nat) : (Json.ofText? t).plainWithin d = true := by
    cases t <;> simp [Json.ofText?, Json.plainWithin]
  cases s with
  | flow f =>
    have hps : f.properties.toJson.plainWithin 126 = true :=
      membersPlainWithin_map 125 f.properties.toList
    simp [toJson, maxDepth, Json.plainWithin, Json.membersPlainWithin, htext, hps]
  | topology t => simp [toJson, maxDepth, Json.plainWithin, Json.membersPlainWithin, htext]

/-- A spec is read back from its compact text. -/
theorem decode_encode (s : Spec) : decode s.encode = some s :=
  decode_eq_some_iff.2 ⟨s.toJson, Json.read_print s.toJson, plainWithin_toJson s,
    describes_toJson s⟩

/-- What is written for a spec is read back as that spec.  The texts that are read as a spec are
    those of a value that describes it, in any order of its members, with members that are not
    known, with names of properties that repeat, or as an array.  Whatever text a spec was read
    from, its uri and version are not blank, and written again it is read back. -/
theorem reads_back :
    (∀ s : Spec, decode s.encode = some s) ∧
      (∀ (text : String) (s : Spec), decode text = some s ↔
        ∃ j, Json.read text = some j ∧ j.plainWithin maxDepth = true ∧ Describes j s) ∧
      ∀ (text : String) (s : Spec), decode text = some s →
        Text.isBlank s.uri = false ∧ Text.isBlank s.version = false ∧
          decode s.encode = some s := by
  -- What was read is a spec, whose labels are not blank in any case.
  refine ⟨decode_encode, fun _ _ => decode_eq_some_iff, fun _ s _ => ?_⟩
  cases s with
  | flow f => exact ⟨f.uri.text_not_blank, f.version.text_not_blank, decode_encode (.flow f)⟩
  | topology t =>
    exact ⟨t.uri.text_not_blank, t.version.text_not_blank, decode_encode (.topology t)⟩

/-- A flow whose kind comes last, with a member that is not known and a property that is
    named twice. -/
private def looseText : String :=
  "\x7b\"version\":\"2\",\"note\":[\x7b\"kind\":1\x7d],\"properties\":" ++
    "\x7b\"a\":\"1\",\"a\":\"\\u0022\"\x7d, \"uri\":\"flow://A\",\"kind\":\"flow\"\x7d"

private def looseFlow : Flow where
  uri := ⟨"flow://A", rfl⟩
  version := ⟨"2", rfl⟩
  description := none
  properties := .ofList [("a", "\"")]

/-- The loose text is read as the flow, and what is written for the flow is read as well. -/
theorem reads_back_loose :
    decode looseText = some (.flow looseFlow) ∧ Text.isBlank looseFlow.uri.text = false ∧
      Text.isBlank looseFlow.version.text = false ∧
      decode (encode (.flow looseFlow)) = some (.flow looseFlow) := by
  -- The text is read, and so is what is written for the flow.
  have hread : decode looseText = some (.flow looseFlow) := by decide +kernel
  exact ⟨hread, reads_back.2.2 looseText (.flow looseFlow) hread⟩

end Spec

end FlowCadence
