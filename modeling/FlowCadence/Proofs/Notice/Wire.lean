import FlowCadence.Notice.Channel
import FlowCadence.Proofs.Json.RoundTrip
/-! # Notices on their way

A notice travels as the compact text of an object.  The printer of values is undone by the
reader (`Json.read_print`), so what is left to show is that the members of the object hold
the notice: the names of its kind and its addressee, and its identifier in groups of
hexadecimal digits.

## Key results

* `Identifier.ofText?_text`: an identifier is read back from its grouped form
* `Notice.ofJson?_toJson`: a notice is read back from its object
* `Notice.ofTexts_encode`: notices arrive as they were sent, and none is dropped
* `Notice.decode_sent`: the text that is pushed for a notice is read back as that notice
-/

namespace FlowCadence

namespace Identifier

/-! ### Identifiers -/

/-- A digit below sixteen is written by a character that has its value. -/
private theorem hexValue_digitChar : ∀ d < 16, Text.hexValue d.digitChar = some d := by
  decide

/-- No digit is written as a hyphen. -/
private theorem digitChar_ne_hyphen : ∀ d < 16, d.digitChar ≠ '-' := by decide

/-- As many digits are written as the width says. -/
theorem length_hexDigits (width n : Nat) : (hexDigits width n).length = width := by
  induction width generalizing n with
  | zero => rfl
  | succ width ih => simp [hexDigits, ih]

/-- Hyphens stand between groups and not in them. -/
private theorem hyphen_notMem_hexDigits (width n : Nat) : '-' ∉ hexDigits width n := by
  induction width generalizing n with
  | zero => simp [hexDigits]
  | succ width ih =>
    have hlast := digitChar_ne_hyphen (n % 16) (by omega)
    simp [hexDigits, ih, hlast.symm]

/-- The digits of a number have the values whose sum it is, up to the width. -/
private theorem exists_hexValues (width n : Nat) :
    ∃ vs, (hexDigits width n).mapM Text.hexValue = some vs ∧ vs.length = width ∧
      Text.ofDigitValues 16 vs = n % Nat.pow 16 width := by
  induction width generalizing n with
  | zero => exact ⟨[], rfl, rfl, (Nat.mod_one n).symm⟩
  | succ width ih =>
    -- All but the last digit are those of the quotient.
    obtain ⟨vs, hvs, hlength, hvalue⟩ := ih (n / 16)
    refine ⟨vs ++ [n % 16], ?_, by simp [hlength], ?_⟩
    · simp [hexDigits, List.mapM_append, hvs, hexValue_digitChar (n % 16) (by omega)]
    · -- The last digit is the remainder, and those before it are the digits of the quotient.
      show _ = n % (Nat.pow 16 width * 16)
      rw [Text.ofDigitValues_concat, hvalue, Nat.mul_comm (Nat.pow 16 width) 16, Nat.mod_mul]
      omega

/-- The 32 digits of an identifier spell it. -/
theorem ofDigits?_hexDigits (i : Identifier) : ofDigits? (hexDigits 32 i.bits.toNat) = some i := by
  obtain ⟨vs, hvs, hlength, hvalue⟩ := exists_hexValues 32 i.bits.toNat
  -- An identifier has 128 bits, and so 32 digits are enough.
  have hfits : i.bits.toNat % Nat.pow 16 32 = i.bits.toNat := Nat.mod_eq_of_lt i.bits.isLt
  rw [hfits] at hvalue
  simp [ofDigits?, hvs, hlength, hvalue]

/-- The groups that the digits are written in. -/
private theorem splitOn_text (i : Identifier) :
    let ds := hexDigits 32 i.bits.toNat
    Text.splitOn (· = '-') i.text.toList =
      [ds.take 8, (ds.drop 8).take 4, (ds.drop 12).take 4, (ds.drop 16).take 4, ds.drop 20] := by
  intro ds
  -- A part of the digits has no hyphen, so it is one group.
  have hone {cs : List Char} (h : ∀ c ∈ cs, c ∈ ds) :
      Text.splitOn (fun c => decide (c = '-')) cs = [cs] :=
    Text.splitOn_eq_singleton fun c hc => by
      simp only [decide_eq_false_iff_not]
      rintro rfl
      exact hyphen_notMem_hexDigits 32 i.bits.toNat (h '-' hc)
  simp only [text, String.toList_ofList]
  rw [Text.splitOn_append_cons (by simp), Text.splitOn_append_cons (by simp),
    Text.splitOn_append_cons (by simp), Text.splitOn_append_cons (by simp),
    hone fun c hc => List.mem_of_mem_take hc,
    hone fun c hc => List.mem_of_mem_drop (List.mem_of_mem_take hc),
    hone fun c hc => List.mem_of_mem_drop (List.mem_of_mem_take hc),
    hone fun c hc => List.mem_of_mem_drop (List.mem_of_mem_take hc),
    hone fun c hc => List.mem_of_mem_drop hc]
  rfl

/-- An identifier is read back from its grouped form. -/
theorem ofText?_text (i : Identifier) : ofText? i.text = some i := by
  -- There are 32 digits and four hyphens.
  have hlength := length_hexDigits 32 i.bits.toNat
  have htext : i.text.toList.length = 36 := by
    simp [text, hlength]
  have hgroups : ofGroups? i.text.toList = some i := by
    simp only [ofGroups?, splitOn_text]
    -- The groups are taken one behind the other, and they have the right sizes.
    generalize hds : hexDigits 32 i.bits.toNat = ds at hlength
    have hflat : [ds.take 8, (ds.drop 8).take 4, (ds.drop 12).take 4, (ds.drop 16).take 4,
        ds.drop 20].flatten = ds := by
      -- Each group goes on where the one before it ends.
      have hnext (k : Nat) : (ds.drop k).take 4 ++ ds.drop (k + 4) = ds.drop k := by
        rw [← List.drop_drop, List.take_append_drop]
      simp only [List.flatten_cons, List.flatten_nil, List.append_nil]
      rw [hnext 16, hnext 12, hnext 8, List.take_append_drop]
    rw [hflat, if_pos (by simp [groupSizes, hlength]), ← hds, ofDigits?_hexDigits]
  simp [ofText?, htext, hgroups]

end Identifier

namespace Notice

/-! ### Notices -/

/-- A kind is read back from its label. -/
@[simp] theorem Kind.ofLabel?_label (k : Kind) : ofLabel? k.label = some k := by
  cases k <;> decide

/-- A notice is read back from its object. -/
theorem ofJson?_toJson (n : Notice) : ofJson? n.toJson = some n := by
  simp [toJson, ofJson?, Json.requiredField?, Json.field?, ofFields?, choice?, Json.text?,
    Identifier.ofText?_text]

/-- A notice is read back from its compact text. -/
theorem decode_encode (n : Notice) : decode n.encode = some n := by
  rw [decode, encode, Json.read_print, Option.bind_some, ofJson?_toJson]

/-- The entry that is pushed for a notice holds it. -/
theorem ofEntry_encode (n : Notice) : ofEntry (.ofText n.encode) = some n := by
  rw [ofEntry, KeyStore.Entry.text?_ofText, Option.bind_some, decode_encode]

/-- Notices arrive as they were sent, and none of them is dropped. -/
theorem ofTexts_encode (notices : List Notice) :
    ofTexts (notices.map encode) = ⟨notices, 0⟩ := by
  simp [ofTexts, List.filterMap_map, List.countP_map, Function.comp_def, decode_encode]

/-- The compact text is what is pushed, whatever becomes of it. -/
theorem sent_send (fate : KeyStore.Command → KeyStore.Fate) (root : String) (n : Notice)
    (k : KeyStore) :
    (send (.up fate) root n k).1.sent = k.sent ++ [.push (channelKey root) n.encode] := by
  -- The link gives an answer or a fault, and the command is on record either way.
  have hpush := KeyStore.sent_send fate (.push (channelKey root) n.encode) k
  rw [send]
  split
  · next heq => rwa [heq] at hpush
  · next heq => rwa [heq] at hpush

/-- Whatever a notice tells of, and whatever its payload and its identifier are, one text is
    pushed for it, and that text is read back as the very same notice. -/
theorem decode_sent (n : Notice) :
    decode n.encode = some n ∧
      ∀ (fate : KeyStore.Command → KeyStore.Fate) (root : String) (k : KeyStore),
        ∃ text, (send (.up fate) root n k).1.sent = k.sent ++ [.push (channelKey root) text] ∧
          decode text = some n := by
  constructor
  · exact decode_encode n
  · intro fate root k
    exact ⟨n.encode, sent_send fate root n k, decode_encode n⟩

end Notice

end FlowCadence
