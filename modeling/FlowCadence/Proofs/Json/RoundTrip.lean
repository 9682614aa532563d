import FlowCadence.ForStd
import FlowCadence.Json.Value
import FlowCadence.Json.Reader
/-! # What is printed is read

Reading the compact text of a value gives the value back, whatever it holds: texts with
quotation marks, backslashes and control characters or with a lone surrogate, and numbers
of any size.

The proof goes over the value.  All that it asks of the text behind a value is that a
number there is not continued (`Ends`), and the printer puts nothing but a comma or a
closing bracket behind a value.

## Key results

* `readText_printText`: texts
* `readNumber_printNumber`: numbers
* `readValue_printChars`: values, in front of any text that ends them
* `read_print`: whole texts
-/

namespace FlowCadence.Json

/-! ### Texts -/

/-- Two hexadecimal digits spell a control character. -/
private theorem hexQuad_digitChar :
    ∀ n < 32, hexQuad '0' '0' (n / 16).digitChar (n % 16).digitChar = some n := by
  decide

/-- A character is written as one piece, and that piece spells it. -/
private theorem exists_piece (c : Char) :
    ∃ p, (∀ rest, readPieces (escape c ++ rest) =
        (readPieces rest).map fun r => (p :: r.1, r.2)) ∧
      ∀ ps, spell (p :: ps) = (spell ps).map (c :: ·) := by
  -- A character that is written with one letter behind a backslash, or as it is.
  have hchar (h : ∀ rest, readPieces (escape c ++ rest) =
      (readPieces rest).map fun r => (Piece.char c :: r.1, r.2)) :
      ∃ p, (∀ rest, readPieces (escape c ++ rest) =
          (readPieces rest).map fun r => (p :: r.1, r.2)) ∧
        ∀ ps, spell (p :: ps) = (spell ps).map (c :: ·) :=
    ⟨.char c, h, fun ps => by simp [spell]⟩
  by_cases hshort : c ∈ ['"', '\\', '\x08', '\x0c', '\n', '\r', '\t']
  -- One of the seven that have a letter of their own.
  · apply hchar
    intro rest
    simp only [List.mem_cons, List.not_mem_nil, or_false] at hshort
    rcases hshort with rfl | rfl | rfl | rfl | rfl | rfl | rfl <;>
      cases h : readPieces rest <;> simp [escape, readPieces, unescape, h]
  -- None of the seven is written with a letter.
  · simp only [List.mem_cons, List.not_mem_nil, or_false, not_or] at hshort
    obtain ⟨hquote, hslash, hb, hf, hn, hr, ht⟩ := hshort
    by_cases hcontrol : c.toNat < 0x20
    · -- Any other control character is a code unit, and no surrogate.
      refine ⟨.unit c.toNat, fun rest => ?_, fun ps => ?_⟩
      · simp only [escape, hquote, hslash, hb, hf, hn, hr, ht, hcontrol, if_true, if_false,
          List.cons_append, List.nil_append, readPieces, hexQuad_digitChar _ hcontrol]
        cases readPieces rest <;> simp
      · rw [spell.eq_def]
        simp only
        rw [if_neg (by omega), if_neg (by omega), Char.ofNat_toNat]
    -- Any other character is written as it is.
    · apply hchar
      intro rest
      simp only [escape, hquote, hslash, hb, hf, hn, hr, ht, hcontrol, if_false,
        List.cons_append, List.nil_append]
      rw [readPieces.eq_5 c rest hquote (fun _ _ _ _ _ h => absurd h hslash)
        (fun _ _ h => absurd h hslash), if_neg hcontrol]
      cases readPieces rest <;> simp

/-- A text is written as the pieces of its characters, which spell it. -/
private theorem exists_pieces (cs : List Char) :
    ∃ ps, (∀ rest, readPieces (cs.flatMap escape ++ '"' :: rest) = some (ps, rest)) ∧
      spell ps = some cs := by
  induction cs with
  | nil => exact ⟨[], fun rest => by simp [readPieces], rfl⟩
  | cons c cs ih =>
    -- The first character is one piece, and the rest follows behind it.
    obtain ⟨p, hread, hspell⟩ := exists_piece c
    obtain ⟨ps, hreads, hspells⟩ := ih
    refine ⟨p :: ps, fun rest => ?_, ?_⟩
    · rw [List.flatMap_cons, List.append_assoc, hread, hreads]
      rfl
    · rw [hspell, hspells]
      rfl

/-- A text starts with a quotation mark and is read from behind it. -/
private theorem readText_printText (t : Str) :
    ∃ cs, printText t = '"' :: cs ∧ ∀ rest, readText (cs ++ rest) = some (t, rest) := by
  cases t with
  | none =>
    refine ⟨"\\ud800\"".toList, rfl, fun rest => ?_⟩
    -- The high surrogate has no partner, so there is no text of characters.
    have hquad : hexQuad 'd' '8' '0' '0' = some 0xD800 := by decide
    simp [readText, readPieces, hquad, spell]
  -- The pieces end at the quotation mark behind the text.
  | some s =>
    obtain ⟨ps, hread, hspell⟩ := exists_pieces s.toList
    refine ⟨s.toList.flatMap escape ++ ['"'], rfl, fun rest => ?_⟩
    rw [List.append_assoc, readText, List.singleton_append, hread]
    simp [hspell]

/-! ### Numbers -/

/-- Nothing in the text goes on with a number that stands in front of it. -/
def Ends (rest : List Char) : Prop :=
  ∀ c ∈ rest.head?, c.isDigit = false ∧ c ≠ '.' ∧ c ≠ 'e' ∧ c ≠ 'E'

/-- Digits are read up to the first character that is none. -/
private theorem readDigits_toDigits (n : Nat) {rest : List Char}
    (h : ∀ c ∈ rest.head?, c.isDigit = false) :
    readDigits (Nat.toDigits 10 n ++ rest) = some (Nat.toDigits 10 n, rest) := by
  have hdigits : ∀ c ∈ Nat.toDigits 10 n, c.isDigit = true := fun c hc =>
    isDigit_of_mem_toDigits hc
  -- The text behind takes no part in the digits.
  have htake : rest.takeWhile Char.isDigit = [] := by
    cases rest with
    | nil => rfl
    | cons c rest => simp [h c rfl]
  have hdrop : rest.dropWhile Char.isDigit = rest := by
    cases rest with
    | nil => rfl
    | cons c rest => simp [h c rfl]
  rw [readDigits, List.takeWhile_append_of_pos hdigits, List.dropWhile_append_of_pos hdigits,
    htake, hdrop, List.append_nil]
  split
  · next hnil => exact absurd hnil Nat.toDigits_ne_nil
  · rfl

/-- A whole number is read up to the first character that is no digit. -/
private theorem readWhole_toDigits (n : Nat) {rest : List Char}
    (h : ∀ c ∈ rest.head?, c.isDigit = false) :
    readWhole (Nat.toDigits 10 n ++ rest) = some (Nat.toDigits 10 n, rest) := by
  -- Its digits are read, and what matters is whether they begin with zero.
  have hdigits := readDigits_toDigits n h
  generalize hds : Nat.toDigits 10 n = ds at hdigits ⊢
  cases ds with
  | nil => exact absurd hds Nat.toDigits_ne_nil
  | cons d ds =>
    -- Zero stands alone.
    by_cases hd : d = '0'
    · subst hd
      rw [toDigits_eq_zero_cons hds]
      cases rest with
      | nil => rfl
      | cons c rest => simp [readWhole, h c rfl]
    -- Any other digit goes on with more of them.
    · rw [List.cons_append, readWhole.eq_2 _ (by simp [hd])]
      exact hdigits

/-- The power of ten as the printer writes it. -/
private def exponentText : Int → List Char
  | .ofNat 0 => []
  | .ofNat e => 'e' :: Nat.toDigits 10 e
  | .negSucc e => 'e' :: '-' :: Nat.toDigits 10 (e + 1)

/-- The power of ten is read as it was written, or there is none. -/
private theorem readExponent_exponentText (e : Int) {rest : List Char} (h : Ends rest) :
    readExponent (exponentText e ++ rest) = some (e, rest) := by
  have hends : ∀ c ∈ rest.head?, c.isDigit = false := fun c hc => (h c hc).1
  match e with
  -- There is none, so the text behind must not look like one.
  | .ofNat 0 =>
    show readExponent rest = some (0, rest)
    cases rest with
    | nil => rfl
    | cons c rest =>
      obtain ⟨-, -, he, hE⟩ := h c rfl
      simp [readExponent, he, hE]
  | .ofNat (e + 1) =>
    -- The digits come at once, since none of them is a sign.
    obtain ⟨d, ds, hds⟩ := List.exists_cons_of_ne_nil
      (Nat.toDigits_ne_nil (n := e + 1) (b := 10))
    have hd : d.isDigit = true := isDigit_of_mem_toDigits (n := e + 1) (by simp [hds])
    have hminus : d ≠ '-' := by rintro rfl; exact absurd hd (by decide)
    have hplus : d ≠ '+' := by rintro rfl; exact absurd hd (by decide)
    have hread := readDigits_toDigits (e + 1) hends
    have hvalue := ofDigitChars_toDigits (e + 1)
    rw [hds] at hread hvalue
    simp only [exponentText, hds, List.cons_append, readExponent, decide_true, Bool.true_or,
      if_true]
    split
    · next heq => simp [hminus] at heq
    · next heq => simp [hplus] at heq
    · rw [List.cons_append] at hread
      simp [hread, hvalue]
  -- Behind the sign the digits come.
  | .negSucc e =>
    simp only [exponentText, List.cons_append, readExponent, decide_true, Bool.true_or, if_true,
      readDigits_toDigits (e + 1) hends, Option.map_some, ofDigitChars_toDigits]
    rfl

/-- Neither a digit nor a point follows the digits of a number. -/
private theorem head?_exponentText (e : Int) {rest : List Char} (h : Ends rest) :
    ∀ c ∈ (exponentText e ++ rest).head?, c.isDigit = false ∧ c ≠ '.' := by
  intro c hc
  match e with
  | .ofNat 0 => exact ⟨(h c hc).1, (h c hc).2.1⟩
  | .ofNat (e + 1) | .negSucc e =>
    simp only [exponentText, List.cons_append, List.head?_cons, Option.mem_some_iff] at hc
    subst hc
    decide

/-- A number without its sign is read. -/
private theorem readMagnitude_eq (negative : Bool) (digits : Nat) (e : Int) {rest : List Char}
    (h : Ends rest) :
    readMagnitude negative (Nat.toDigits 10 digits ++ (exponentText e ++ rest)) =
      some (⟨negative, digits, e⟩, rest) := by
  have hhead := head?_exponentText e h
  -- No fraction is written.
  have hfraction : readFraction (exponentText e ++ rest) = some ([], exponentText e ++ rest) := by
    generalize exponentText e ++ rest = cs at hhead
    cases cs with
    | nil => rfl
    | cons c cs =>
      obtain ⟨-, hpoint⟩ := hhead c rfl
      rw [readFraction.eq_2 _ (by simp [hpoint])]
  rw [readMagnitude, readWhole_toDigits digits fun c hc => (hhead c hc).1]
  simp [hfraction, readExponent_exponentText e h]

/-- A number is read in front of any text that does not go on with it. -/
theorem readNumber_printNumber (n : Number) {rest : List Char} (h : Ends rest) :
    readNumber (printNumber n ++ rest) = some (n, rest) := by
  obtain ⟨negative, digits, e⟩ := n
  have hprint : printNumber ⟨negative, digits, e⟩ =
      (if negative then ['-'] else []) ++ Nat.toDigits 10 digits ++ exponentText e := by
    rw [printNumber]
    rfl
  rw [hprint, List.append_assoc]
  -- The sign comes first, or there is none.
  cases negative with
  | true =>
    simp only [if_true, List.cons_append, List.nil_append]
    exact readMagnitude_eq true digits e h
  | false =>
    have hmagnitude := readMagnitude_eq false digits e h
    simp only [Bool.false_eq_true, if_false, List.nil_append]
    -- The first digit is no sign.
    generalize hds : Nat.toDigits 10 digits = ds at hmagnitude ⊢
    cases ds with
    | nil => exact absurd hds Nat.toDigits_ne_nil
    | cons d ds =>
      have hd : d.isDigit = true := isDigit_of_mem_toDigits (n := digits) (by simp [hds])
      have hminus : d ≠ '-' := by rintro rfl; exact absurd hd (by decide)
      rw [List.cons_append, readNumber.eq_2 _ (by simp [hminus])]
      exact hmagnitude

/-! ### Values -/

/-- Nothing is skipped in front of what is no white space. -/
private theorem skipSpace_cons {c : Char} (h : isSpace c = false) (cs : List Char) :
    skipSpace (c :: cs) = c :: cs := by
  simp [skipSpace, h]

/-- A number starts with its sign or with a digit. -/
private theorem exists_printNumber (n : Number) :
    ∃ c cs, printNumber n = c :: cs ∧ (c = '-' ∨ c.isDigit = true) := by
  obtain ⟨negative, digits, e⟩ := n
  -- The first digit is there, as every number has one.
  obtain ⟨d, ds, hds⟩ := List.exists_cons_of_ne_nil (Nat.toDigits_ne_nil (n := digits) (b := 10))
  cases negative with
  | true => exact ⟨'-', _, rfl, .inl rfl⟩
  | false =>
    refine ⟨d, ds ++ exponentText e, ?_,
      .inr (isDigit_of_mem_toDigits (n := digits) (by simp [hds]))⟩
    simp only [printNumber, hds, Bool.false_eq_true, if_false, List.nil_append, List.cons_append]
    rfl

/-- What starts like a number is read as one. -/
private theorem readValue_eq_readNumber (fuel : Nat) {c : Char} (cs : List Char)
    (h : c = '-' ∨ c.isDigit = true) :
    readValue (fuel + 1) (c :: cs) = (readNumber (c :: cs)).map fun r => (.number r.1, r.2) := by
  -- Every other kind of value starts with a character of its own.
  have hne (d : Char) (hd : d ≠ '-' ∧ d.isDigit = false) : c ≠ d := by
    rintro rfl
    rcases h with h | h
    · exact hd.1 h
    · rw [hd.2] at h
      cases h
  -- Nor is a sign or a digit white space.
  have hspace : isSpace c = false := by
    simp [isSpace, hne ' ' (by decide), hne '\t' (by decide), hne '\n' (by decide),
      hne '\r' (by decide)]
  rw [readValue, skipSpace_cons hspace]
  -- Each of the other kinds starts with its own character.
  split
  · next heq => exact absurd (List.cons.inj heq).1 (hne 'n' (by decide))
  · next heq => exact absurd (List.cons.inj heq).1 (hne 't' (by decide))
  · next heq => exact absurd (List.cons.inj heq).1 (hne 'f' (by decide))
  · next heq => exact absurd (List.cons.inj heq).1 (hne '"' (by decide))
  · next heq => exact absurd (List.cons.inj heq).1 (hne '[' (by decide))
  · next heq => exact absurd (List.cons.inj heq).1 (hne '\x7b' (by decide))
  · rfl

/-- A value starts with a character that is no white space and closes no bracket. -/
private theorem exists_printChars (j : Json) :
    ∃ c cs, printChars j = c :: cs ∧ isSpace c = false ∧ c ≠ ']' := by
  match j with
  | .null | .bool true | .bool false => exact ⟨_, _, rfl, by decide, by decide⟩
  | .string t =>
    obtain ⟨cs, heq, -⟩ := readText_printText t
    exact ⟨_, _, heq, by decide, by decide⟩
  | .array items => exact ⟨'[', _, rfl, by decide, by decide⟩
  | .object members => exact ⟨'\x7b', _, rfl, by decide, by decide⟩
  -- A number starts with a sign or a digit.
  | .number n =>
    obtain ⟨c, cs, heq, hc⟩ := exists_printNumber n
    refine ⟨c, cs, heq, ?_, ?_⟩
    · rcases hc with rfl | hc
      · decide
      · rw [isSpace, ← Bool.not_eq_true]
        simp only [Bool.or_eq_true, decide_eq_true_eq]
        rintro (((rfl | rfl) | rfl) | rfl) <;> exact absurd hc (by decide)
    · rintro rfl
      rcases hc with hc | hc <;> exact absurd hc (by decide)

/-- So does a list of values that is not empty. -/
private theorem exists_printItems {js : List Json} (h : js ≠ []) :
    ∃ c cs, printItems js = c :: cs ∧ isSpace c = false ∧ c ≠ ']' := by
  match js with
  -- The first value decides.
  | [j] =>
    rw [printItems]
    exact exists_printChars j
  | j :: k :: js =>
    obtain ⟨c, cs, heq, hspace, hc⟩ := exists_printChars j
    refine ⟨c, cs ++ ',' :: printItems (k :: js), ?_, hspace, hc⟩
    simp only [printItems, heq, List.cons_append]

/-- Members start with a quotation mark, if there are any. -/
private theorem exists_printMembers {ms : List (Str × Json)} (h : ms ≠ []) :
    ∃ cs, printMembers ms = '"' :: cs := by
  match ms with
  | [(k, j)] | (k, j) :: m :: ms =>
    obtain ⟨cs, heq, -⟩ := readText_printText k
    exact ⟨_, by simp only [printMembers, heq, List.cons_append]; rfl⟩

/-- What the printer puts behind a value ends it. -/
private theorem ends_of_cons {c : Char} {cs : List Char} (h : c = ',' ∨ c = ']' ∨ c = '\x7d') :
    Ends (c :: cs) := by
  intro d hd
  simp only [List.head?_cons, Option.mem_some_iff] at hd
  subst hd
  rcases h with rfl | rfl | rfl <;> decide

mutual

/-- A value is read in front of any text that ends it, given two steps for each character. -/
theorem readValue_printChars (j : Json) (fuel : Nat) (hfuel : 2 * (printChars j).length ≤ fuel)
    (rest : List Char) (h : Ends rest) :
    readValue fuel (printChars j ++ rest) = some (j, rest) := by
  -- There is a character, and so a first step.
  obtain ⟨c, cs, hprint, hspace, -⟩ := exists_printChars j
  obtain ⟨fuel, rfl⟩ : ∃ k, fuel = k + 1 := by
    rw [hprint, List.length_cons] at hfuel
    exact ⟨fuel - 1, by omega⟩
  -- One case for each constructor, with the members of arrays and objects by the lemmas below.
  match j with
  | .null => simp [printChars, readValue, skipSpace_cons (c := 'n') (by decide)]
  | .bool true => simp [printChars, readValue, skipSpace_cons (c := 't') (by decide)]
  | .bool false => simp [printChars, readValue, skipSpace_cons (c := 'f') (by decide)]
  | .number n =>
    obtain ⟨c, cs, hnumber, hc⟩ := exists_printNumber n
    have hread := readNumber_printNumber n h
    rw [hnumber, List.cons_append] at hread
    rw [printChars, hnumber, List.cons_append, readValue_eq_readNumber fuel _ hc, hread]
    rfl
  | .string t =>
    obtain ⟨cs, htext, hread⟩ := readText_printText t
    rw [printChars, htext, List.cons_append, readValue, skipSpace_cons (by decide)]
    simp [hread]
  | .array [] =>
    simp [printChars, printItems, readValue, skipSpace_cons (c := '[') (by decide),
      skipSpace_cons (c := ']') (by decide)]
  -- The items are read with one step less.
  | .array (j :: js) =>
    have hitems := readItems_printItems (j :: js) fuel (by simp) (by
      simp only [printChars, List.length_append, List.length_cons] at hfuel
      omega) rest
    obtain ⟨c, cs, heq, hspace, hc⟩ := exists_printItems (List.cons_ne_nil j js)
    rw [heq, List.cons_append] at hitems
    rw [printChars, heq, List.cons_append, List.cons_append, List.append_assoc,
      List.singleton_append, readValue, skipSpace_cons (by decide)]
    simp only [List.cons_append, skipSpace_cons hspace]
    -- No item starts with the bracket that an empty array goes on with.
    split
    · next hclose => exact absurd (List.cons.inj hclose).1 hc
    · rw [hitems]
      rfl
  | .object [] =>
    simp [printChars, printMembers, readValue, skipSpace_cons (c := '\x7b') (by decide),
      skipSpace_cons (c := '\x7d') (by decide)]
  -- The members are read with one step less.
  | .object (m :: ms) =>
    have hmembers := readMembers_printMembers (m :: ms) fuel (by simp) (by
      simp only [printChars, List.length_append, List.length_cons] at hfuel
      omega) rest
    obtain ⟨cs, heq⟩ := exists_printMembers (List.cons_ne_nil m ms)
    rw [heq, List.cons_append] at hmembers
    rw [printChars, heq, List.cons_append, List.cons_append, List.append_assoc,
      List.singleton_append, readValue, skipSpace_cons (by decide)]
    simp only [List.cons_append, skipSpace_cons (c := '"') (by decide)]
    -- Nor does any member start with the brace that closes an object.
    split
    · next hclose => exact absurd (List.cons.inj hclose).1 (by decide)
    · rw [hmembers]
      rfl

/-- Items are read up to the bracket that closes them. -/
theorem readItems_printItems (js : List Json) (fuel : Nat) (hne : js ≠ [])
    (hfuel : 2 * (printItems js).length + 1 ≤ fuel) (rest : List Char) :
    readItems fuel (printItems js ++ ']' :: rest) = some (js, rest) := by
  obtain ⟨fuel, rfl⟩ : ∃ k, fuel = k + 1 := ⟨fuel - 1, by omega⟩
  match js with
  -- The last item is followed by the bracket.
  | [j] =>
    rw [printItems] at hfuel ⊢
    have hvalue := readValue_printChars j fuel (by omega) (']' :: rest)
      (ends_of_cons (.inr (.inl rfl)))
    simp [readItems, hvalue, skipSpace_cons (c := ']') (by decide)]
  -- Any other is followed by a comma and the rest.
  | j :: k :: js =>
    simp only [printItems, List.length_append, List.length_cons] at hfuel
    have hvalue := readValue_printChars j fuel (by omega)
      (',' :: (printItems (k :: js) ++ ']' :: rest)) (ends_of_cons (.inl rfl))
    have hitems := readItems_printItems (k :: js) fuel (by simp) (by omega) rest
    rw [printItems.eq_3 j (k :: js) (by simp), List.append_assoc, List.cons_append]
    simp [readItems, hvalue, hitems, skipSpace_cons (c := ',') (by decide)]

/-- Members are read up to the brace that closes them. -/
theorem readMembers_printMembers (ms : List (Str × Json)) (fuel : Nat) (hne : ms ≠ [])
    (hfuel : 2 * (printMembers ms).length + 1 ≤ fuel) (rest : List Char) :
    readMembers fuel (printMembers ms ++ '\x7d' :: rest) = some (ms, rest) := by
  obtain ⟨fuel, rfl⟩ : ∃ k, fuel = k + 1 := ⟨fuel - 1, by omega⟩
  match ms with
  -- The last member is followed by the brace.
  | [(k, j)] =>
    obtain ⟨cs, htext, hread⟩ := readText_printText k
    simp only [printMembers, List.length_append, List.length_cons] at hfuel
    have hvalue := readValue_printChars j fuel (by omega) ('\x7d' :: rest)
      (ends_of_cons (.inr (.inr rfl)))
    rw [printMembers, htext, List.append_assoc, List.cons_append, List.cons_append]
    simp [readMembers, hread, hvalue, skipSpace_cons (c := '"') (by decide),
      skipSpace_cons (c := ':') (by decide), skipSpace_cons (c := '\x7d') (by decide)]
  -- Any other is followed by a comma and the rest.
  | (k, j) :: m :: ms =>
    obtain ⟨cs, htext, hread⟩ := readText_printText k
    simp only [printMembers, List.length_append, List.length_cons] at hfuel
    have hvalue := readValue_printChars j fuel (by omega)
      (',' :: (printMembers (m :: ms) ++ '\x7d' :: rest)) (ends_of_cons (.inl rfl))
    have hmembers := readMembers_printMembers (m :: ms) fuel (by simp) (by omega) rest
    rw [printMembers.eq_3 k j (m :: ms) (by simp), htext, List.append_assoc, List.cons_append,
      List.cons_append, List.append_assoc, List.cons_append]
    simp [readMembers, hread, hvalue, hmembers, skipSpace_cons (c := '"') (by decide),
      skipSpace_cons (c := ':') (by decide), skipSpace_cons (c := ',') (by decide)]

end

/-- Whatever a value holds, its compact text is read as that value. -/
theorem read_print (j : Json) : read j.print = some j := by
  -- The reader has two steps for each character and two more.
  have hvalue := readValue_printChars j (2 * (printChars j).length + 2) (by omega) [] nofun
  rw [List.append_nil] at hvalue
  simp [read, print, readChars, hvalue, skipSpace]

end FlowCadence.Json
