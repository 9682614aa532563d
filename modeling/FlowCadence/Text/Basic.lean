import FlowCadence.Fault
import FlowCadence.ForStd
/-! # Texts

White space, trimming and blank texts.  White space is the Unicode property
`White_Space`: twenty-five code points, so that a no-break space counts and a
zero-width space does not.

A label is a text that is not blank.  The text is kept as it is: white space at
its ends belongs to it.

* `isBlank_eq_true_iff`  a text is blank iff each of its characters is white space
* `isBlank_trim`         trimming keeps blankness
* `trim_eq_empty_iff`    a text is blank iff trimming leaves nothing
* `Label.ofText_text`    the text of a label makes that label -/

namespace FlowCadence

namespace Text

/-! ### White space -/

/-- The code points with the property `White_Space`, as closed ranges in
    ascending order. -/
def spaceRanges : List (Nat × Nat) :=
  [(0x09, 0x0D), (0x20, 0x20), (0x85, 0x85), (0xA0, 0xA0), (0x1680, 0x1680),
   (0x2000, 0x200A), (0x2028, 0x2029), (0x202F, 0x202F), (0x205F, 0x205F), (0x3000, 0x3000)]

/-- Whether a character is white space. -/
def isSpace (c : Char) : Bool :=
  spaceRanges.any fun r => decide (r.1 ≤ c.toNat) && decide (c.toNat ≤ r.2)

/-- The characters without the white space at either end. -/
def trimChars (cs : List Char) : List Char :=
  ((cs.dropWhile isSpace).reverse.dropWhile isSpace).reverse

/-- The text without the white space at either end. -/
def trim (s : String) : String := String.ofList (trimChars s.toList)

/-- Whether a text holds nothing but white space. -/
def isBlank (s : String) : Bool := s.toList.all isSpace

/-- A text is blank if it is all blanks. -/
theorem isBlank_eq_true_iff {s : String} : isBlank s = true ↔ ∀ c ∈ s.toList, isSpace c := by
  simp [isBlank]

/-- Blanks in front make no difference to whether all is blank. -/
theorem all_isSpace_dropWhile (cs : List Char) :
    (cs.dropWhile isSpace).all isSpace = cs.all isSpace := by
  induction cs with
  | nil => rfl
  | cons c cs ih => cases hc : isSpace c <;> simp_all

/-- Nor do blanks on both sides. -/
theorem all_isSpace_trimChars (cs : List Char) :
    (trimChars cs).all isSpace = cs.all isSpace := by
  rw [trimChars, List.all_reverse, all_isSpace_dropWhile, List.all_reverse,
    all_isSpace_dropWhile]

/-- Nothing is left of a trimmed text exactly if it is blank. -/
theorem trimChars_eq_nil_iff {cs : List Char} : trimChars cs = [] ↔ cs.all isSpace = true := by
  rw [trimChars, List.reverse_eq_nil_iff, dropWhile_eq_nil, List.all_reverse,
    all_isSpace_dropWhile]

@[simp] theorem toList_trim (s : String) : (trim s).toList = trimChars s.toList := by
  simp [trim]

/-- A text is as blank as before it was trimmed. -/
theorem isBlank_trim (s : String) : isBlank (trim s) = isBlank s := by
  simp only [isBlank, toList_trim, all_isSpace_trimChars]

/-- A text is blank exactly when trimming leaves nothing. -/
theorem trim_eq_empty_iff {s : String} : trim s = "" ↔ isBlank s = true := by
  rw [isBlank, ← trimChars_eq_nil_iff, ← toList_trim, String.toList_eq_nil_iff]

/-! ### Digits -/

/-- The value of a hexadecimal digit of either case. -/
def hexValue (c : Char) : Option Nat :=
  if '0' ≤ c ∧ c ≤ '9' then some (c.toNat - '0'.toNat)
  else if 'a' ≤ c ∧ c ≤ 'f' then some (c.toNat - 'a'.toNat + 10)
  else if 'A' ≤ c ∧ c ≤ 'F' then some (c.toNat - 'A'.toNat + 10)
  else none

/-- The number whose digits have these values, the first one counting most. -/
def ofDigitValues (base : Nat) (vs : List Nat) : Nat := vs.foldl (fun n v => n * base + v) 0

/-- The last digit counts once, and those in front of it count `base` times. -/
theorem ofDigitValues_concat (base : Nat) (vs : List Nat) (v : Nat) :
    ofDigitValues base (vs ++ [v]) = ofDigitValues base vs * base + v := by
  rw [ofDigitValues, List.foldl_append]
  rfl

end Text

/-! ### Labels -/

/-- A text that is not blank. -/
structure Label where
  text : String
  text_not_blank : Text.isBlank text = false
  deriving DecidableEq

namespace Label

/-- The label with this text, or none when the text is blank. -/
def ofText? (s : String) : Option Label :=
  if h : Text.isBlank s = false then some ⟨s, h⟩ else none

/-- The label with this text; a blank text is a fault. -/
def ofText (s : String) : Except Fault Label :=
  match ofText? s with
  | some l => .ok l
  | none => .error (.validation "value must not be empty or whitespace")

/-- A label is read from its own text, and from no other. -/
theorem ofText?_eq_some_iff {s : String} {l : Label} : ofText? s = some l ↔ l.text = s := by
  obtain ⟨t, ht⟩ := l
  simp only [ofText?, Option.dite_none_right_eq_some, Option.some.injEq, mk.injEq]
  constructor
  · rintro ⟨-, rfl⟩; rfl
  · rintro rfl; exact ⟨ht, rfl⟩

@[simp] theorem ofText?_text (l : Label) : ofText? l.text = some l :=
  ofText?_eq_some_iff.2 rfl

@[simp] theorem ofText_text (l : Label) : ofText l.text = .ok l := by
  simp [ofText]

end Label

end FlowCadence
