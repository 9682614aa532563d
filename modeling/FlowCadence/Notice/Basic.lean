import FlowCadence.Fault
import FlowCadence.Json.Value
import FlowCadence.Json.Reader
import FlowCadence.Text.Split
/-! # Notices to the controller

A node on standby tells the controller about flows that were added or removed.
A notice of an added flow carries its uri, a notice of a removed flow its uri and
version with a colon between them.  A uri may hold colons itself, so the version
is what stands behind the last one (`removal_eq_ok_iff`).

A notice carries an identifier of 128 bits, so that it can be traced from node
to node.  It is written as groups of 8, 4, 4, 4 and 12 hexadecimal digits in
lower case.  The reader takes either case, the digits without hyphens, and the
grouped form in braces or behind `urn:uuid:`. -/

/-! ## Identifiers -/

namespace FlowCadence

/-- An identifier of 128 bits. -/
structure Identifier where
  bits : BitVec 128
  deriving DecidableEq, Repr

namespace Identifier

/-- The identifier whose bits are all zero. -/
def zero : Identifier := ⟨0⟩

/-- The last `width` hexadecimal digits of a number. -/
def hexDigits : Nat → Nat → List Char
  | 0, _ => []
  | width + 1, n => hexDigits width (n / 16) ++ [(n % 16).digitChar]

/-- The sizes of the groups of digits. -/
def groupSizes : List Nat := [8, 4, 4, 4, 12]

/-- The grouped form. -/
def text (i : Identifier) : String :=
  let ds := hexDigits 32 i.bits.toNat
  String.ofList (ds.take 8 ++ '-' :: ((ds.drop 8).take 4 ++ '-' :: ((ds.drop 12).take 4 ++
    '-' :: ((ds.drop 16).take 4 ++ '-' :: ds.drop 20))))

/-- The identifier that 32 hexadecimal digits write. -/
def ofDigits? (ds : List Char) : Option Identifier := do
  let vs ← ds.mapM Text.hexValue
  if vs.length = 32 then some ⟨BitVec.ofNat 128 (Text.ofDigitValues 16 vs)⟩ else none

/-- The identifier that groups of digits write. -/
def ofGroups? (cs : List Char) : Option Identifier :=
  let groups := Text.splitOn (· = '-') cs
  if groups.map List.length = groupSizes then ofDigits? groups.flatten else none

/-- What stands in front of the grouped form in a uniform resource name. -/
def urn : List Char := "urn:uuid:".toList

/-- The identifier that a text writes in one of the accepted forms. -/
def ofText? (s : String) : Option Identifier :=
  let cs := s.toList
  if cs.length = 32 then ofDigits? cs
  else if cs.length = 36 then ofGroups? cs
  else if cs.length = 38 then
    if cs.head? = some '\x7b' ∧ cs.getLast? = some '\x7d' then ofGroups? (cs.drop 1).dropLast
    else none
  else if cs.length = 45 then
    if (cs.take 9).map Char.toLower = urn then ofGroups? (cs.drop 9) else none
  else none

end Identifier

/-! ## Notices -/

/-- What a notice is about. -/
inductive Notice.Kind where
  | added
  | removed
  deriving DecidableEq, Repr

/-- The name a kind is written under. -/
def Notice.Kind.label : Notice.Kind → String
  | .added => "flow_spec_add"
  | .removed => "flow_spec_remove"

/-- The kind written under a name. -/
def Notice.Kind.ofLabel? (s : String) : Option Notice.Kind :=
  if s = "flow_spec_add" then some .added
  else if s = "flow_spec_remove" then some .removed
  else none

/-- A notice from a node on standby to the controller. -/
structure Notice where
  kind : Notice.Kind
  payload : String
  id : Identifier
  deriving DecidableEq, Repr

namespace Notice

/-- The role that every notice is addressed to. -/
def addressee : String := "controller"

/-- The notice that a flow was added. -/
def ofAdded (id : Identifier) (uri : String) : Notice := ⟨.added, uri, id⟩

/-- The notice that a version of a flow was removed. -/
def ofRemoved (id : Identifier) (uri version : String) : Notice :=
  ⟨.removed, uri ++ ":" ++ version, id⟩

/-- Why a notice does not name a removed flow. -/
inductive Refusal where
  /-- The notice is about an added flow. -/
  | notARemoval (id : Identifier)
  /-- The payload lacks a colon, or one of its sides is blank. -/
  | malformed (payload : String)
  deriving DecidableEq, Repr

/-- The fault that a refusal is reported as. -/
def Refusal.fault : Refusal → Fault
  | .notARemoval id => .validation ("message '" ++ id.text ++ "' is not a flow spec removal")
  | .malformed payload => .validation
      ("flow spec removal payload '" ++ payload ++ "' must be '<uri>:<version>'")

/-- The uri and the version that a notice of a removed flow names. -/
def removal (n : Notice) : Except Refusal (String × String) :=
  match n.kind with
  | .added => .error (.notARemoval n.id)
  | .removed =>
    match Text.cutLast ':' n.payload.toList with
    | some (uri, version) =>
      if uri.all Text.isSpace || version.all Text.isSpace then .error (.malformed n.payload)
      else .ok (String.ofList uri, String.ofList version)
    | none => .error (.malformed n.payload)

/-- A text is cut at the last colon exactly if none is in the part behind it. -/
theorem cutLast_colon_eq_some_iff {s a b : String} :
    Text.cutLast ':' s.toList = some (a.toList, b.toList) ↔
      s = a ++ ":" ++ b ∧ ':' ∉ b.toList := by
  rw [Text.cutLast_eq_some_iff, ← String.toList_inj]
  simp

/-- A notice of a removed flow names what stands on the two sides of its last colon,
    neither of them blank. -/
theorem removal_eq_ok_iff {payload uri version : String} {id : Identifier} :
    removal ⟨.removed, payload, id⟩ = .ok (uri, version) ↔
      payload = uri ++ ":" ++ version ∧ ':' ∉ version.toList ∧
        Text.isBlank uri = false ∧ Text.isBlank version = false := by
  rw [← and_assoc, ← cutLast_colon_eq_some_iff]
  cases h : Text.cutLast ':' payload.toList with
  | none => simp [removal, h]
  | some sides =>
    obtain ⟨a, b⟩ := sides
    simp only [removal, h, Option.some.injEq, Prod.mk.injEq, Text.isBlank]
    constructor
    · intro hok
      split at hok
      · cases hok
      · next hne =>
        simp only [Except.ok.injEq, Prod.mk.injEq] at hok
        obtain ⟨rfl, rfl⟩ := hok
        simpa using hne
    · rintro ⟨⟨rfl, rfl⟩, huri, hversion⟩
      simp [huri, hversion]

/-- Where the version has no colon, the notice that it was removed names the uri.
    A version with a colon is cut in two, and the uri grows by the first part. -/
theorem removal_ofRemoved_eq_ok_iff {uri version u v : String} {i : Identifier} :
    removal (ofRemoved i uri version) = .ok (u, v) ↔
      (u = uri ∧ v = version ∨ ∃ a, u = uri ++ ":" ++ a ∧ version = a ++ ":" ++ v) ∧
        ':' ∉ v.toList ∧ Text.isBlank u = false ∧ Text.isBlank v = false := by
  have hsides (hv : ':' ∉ v.toList) : uri ++ ":" ++ version = u ++ ":" ++ v ↔
      u = uri ∧ v = version ∨ ∃ a, u = uri ++ ":" ++ a ∧ version = a ++ ":" ++ v := by
    constructor
    · intro h
      have hlists : uri.toList ++ ':' :: version.toList = u.toList ++ ':' :: v.toList := by
        simpa using congrArg String.toList h
      -- One of the uris goes on where the other ends.
      rcases List.append_eq_append_iff.1 hlists with ⟨c, hu, hversion⟩ | ⟨c, huri, hrest⟩
      · cases c with
        | nil =>
          left
          rw [List.nil_append, List.cons.injEq] at hversion
          exact ⟨String.toList_inj.1 (by simpa using hu), String.toList_inj.1 hversion.2.symm⟩
        | cons d c =>
          right
          rw [List.cons_append, List.cons.injEq] at hversion
          obtain ⟨rfl, hversion⟩ := hversion
          refine ⟨String.ofList c, String.toList_inj.1 ?_, String.toList_inj.1 ?_⟩
          · simpa using hu
          · simpa using hversion
      · cases c with
        | nil =>
          left
          rw [List.nil_append, List.cons.injEq] at hrest
          exact ⟨String.toList_inj.1 (by simpa using huri.symm), String.toList_inj.1 hrest.2⟩
        | cons d c =>
          rw [List.cons_append, List.cons.injEq] at hrest
          rw [hrest.2] at hv
          exact absurd (by simp) hv
    · rintro (⟨rfl, rfl⟩ | ⟨a, rfl, rfl⟩)
      · rfl
      · simp only [String.append_assoc]
  rw [ofRemoved, removal_eq_ok_iff]
  constructor
  · rintro ⟨h, hv, hblank⟩
    exact ⟨(hsides hv).1 h, hv, hblank⟩
  · rintro ⟨h, hv, hblank⟩
    exact ⟨(hsides hv).2 h, hv, hblank⟩

end Notice

end FlowCadence
