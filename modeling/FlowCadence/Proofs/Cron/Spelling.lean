import FlowCadence.Proofs.Cron.Denotation
/-! # How fields are spelled

The readers take text from the left and never give anything back.  Without white space
inside, what they take for an item is a spelling of it; and a spelling is read as its item
wherever it stands, if what follows cannot be taken for more of it.  A field that is read
alone is therefore read the same in front of another field.

## Key results

* `FieldSpelled.of_readField`: what is read as a field without white space spells it
* `FieldSpelled.readField_eq`: a field that is spelled is read
* `readValues_append`: a field that is valid alone is read the same in front of another -/

namespace FlowCadence.Cron

variable {u : Unit} {cs r : List Char}

/-- The text writes a number that a field may hold. -/
structure IsNumeral (ds : List Char) (n : Nat) : Prop where
  ne_nil : ds ≠ []
  digits : ∀ c ∈ ds, c.isDigit = true
  value : Nat.ofDigitChars 10 ds 0 = n
  lt : n < Nat.pow 2 32

/-- The text is a name. -/
structure IsName (as : List Char) (s : String) : Prop where
  ne_nil : as ≠ []
  letters : ∀ c ∈ as, c.isAlpha = true
  text : s = String.ofList as

/-- The text is one of the spellings of a base. -/
inductive Base.Spelled (u : Unit) : List Char → Base → Prop
  | star : Spelled u ['*'] .all
  | question (h : u.takesQuestionMark = true) : Spelled u ['?'] .all
  | point {ds n} (h : IsNumeral ds n) : Spelled u ds (.point n)
  | range {as bs a b} (ha : IsNumeral as a) (hb : IsNumeral bs b) :
      Spelled u (as ++ '-' :: bs) (.range a b)
  | names {as bs a b} (ha : IsName as a) (hb : IsName bs b) :
      Spelled u (as ++ '-' :: bs) (.names a b)

/-- The text is one of the spellings of an item. -/
inductive Item.Spelled (u : Unit) : List Char → Item → Prop
  | plain {cs b} (h : Base.Spelled u cs b) : Spelled u cs (.plain b)
  | every {cs ss b s} (h : Base.Spelled u cs b) (hs : IsNumeral ss s) :
      Spelled u (cs ++ '/' :: ss) (.every b s)
  | name {cs s} (h : IsName cs s) : Spelled u cs (.name s)

/-- The text spells items with commas between them. -/
inductive FieldSpelled (u : Unit) : List Char → List Item → Prop
  | one {cs i} (h : Item.Spelled u cs i) : FieldSpelled u cs [i]
  | cons {cs ds i is} (h : Item.Spelled u cs i) (hs : FieldSpelled u ds is) :
      FieldSpelled u (cs ++ ',' :: ds) (i :: is)

/-! ### Characters -/

/-- A character that a spelling can start with: none that goes on with what stands before. -/
structure IsStart (c : Char) : Prop where
  gap : isGap c = false
  dash : c ≠ '-'
  stroke : c ≠ '/'
  comma : c ≠ ','

/-- Letters and digits separate nothing. -/
theorem IsStart.of_isAlphanum {c : Char} (h : c.isAlphanum = true) : IsStart c := by
  refine ⟨?_, ?_, ?_, ?_⟩
  · rw [isGap, ← Bool.not_eq_true]
    simp only [Bool.or_eq_true, decide_eq_true_eq]
    -- None of the four kinds of white space is a letter or a digit.
    rintro (((rfl | rfl) | rfl) | rfl) <;> exact absurd h (by decide)
  all_goals
    rintro rfl
    exact absurd h (by decide)

/-- The text starts with a character that a spelling can start with. -/
def Starts (cs : List Char) : Prop := ∃ c ds, cs = c :: ds ∧ IsStart c

/-- What stands behind a text does not change how it starts. -/
theorem Starts.append (h : Starts cs) (r : List Char) : Starts (cs ++ r) := by
  obtain ⟨c, ds, rfl, hc⟩ := h
  exact ⟨c, ds ++ r, rfl, hc⟩

/-- Where no white space stands nothing is skipped. -/
theorem skipGap_cons {c : Char} (h : isGap c = false) : skipGap (c :: cs) = c :: cs :=
  List.dropWhile_cons_of_neg (by simp [h])

/-- A start is no white space, so nothing is skipped in front of it. -/
theorem Starts.skipGap_eq (h : Starts cs) : skipGap cs = cs := by
  obtain ⟨c, ds, rfl, hc⟩ := h
  exact skipGap_cons hc.gap

/-- Once white space is skipped, there is none left to skip. -/
theorem skipGap_skipGap (cs : List Char) : skipGap (skipGap cs) = skipGap cs := by
  induction cs with
  | nil => rfl
  | cons c cs ih =>
    cases hc : isGap c with
    | true => simpa [skipGap, hc] using ih
    | false => simp [skipGap, hc]

/-- A character is expected and taken, or nothing is. -/
theorem expect_eq_some {c : Char} {ds : List Char} : expect c cs = some ds ↔ cs = c :: ds := by
  cases cs with
  | nil => simp [expect]
  | cons d cs => simp [expect]

/-- Two readings, one behind the other, with a character between them. -/
theorem bind_expect_eq_some {α β γ : Type} {c : Char} {x : Option (α × List Char)}
    {q : List Char → Option (β × List Char)} {f : α → β → γ} {z : γ} :
    (do let (a, cs) ← x
        let cs ← expect c cs
        let (b, cs) ← q cs
        return (f a b, cs)) = some (z, r) ↔
      ∃ a ds b, x = some (a, c :: ds) ∧ q ds = some (b, r) ∧ f a b = z := by
  simp only [Option.bind_eq_bind, Option.bind_eq_some_iff, Prod.exists, expect_eq_some,
    Option.pure_def, Option.some.injEq, Prod.mk.injEq]
  constructor
  · rintro ⟨a, _, hx, ds, rfl, b, _, hq, rfl, rfl⟩
    exact ⟨a, ds, b, hx, hq, rfl⟩
  · rintro ⟨a, ds, b, hx, hq, rfl⟩
    exact ⟨a, _, hx, ds, rfl, b, _, hq, rfl, rfl⟩

/-- A text that can start a spelling does not start with a separator. -/
theorem Starts.expect_eq_none (h : Starts cs) {c : Char} (hc : ¬ IsStart c) :
    expect c cs = none := by
  obtain ⟨d, ds, rfl, hd⟩ := h
  exact if_neg fun (hdc : d = c) => hc (hdc ▸ hd)

/-- Where a text goes on after white space with a character, it also does with none. -/
theorem expect_eq_none_of_skipGap {c : Char} (hc : isGap c = false)
    (h : expect c (skipGap cs) = none) : expect c cs = none := by
  cases cs with
  | nil => rfl
  | cons d ds =>
    -- If the text started with `c`, nothing would have been skipped.
    refine if_neg fun hdc => ?_
    subst hdc
    rw [skipGap_cons hc] at h
    simp [expect] at h

/-! ### Numbers and names -/

/-- What stands behind a number or a name does not go on with it. -/
def Stops (r : List Char) : Prop := ∀ c ∈ r.head?, c.isAlphanum = false

/-- What is taken ends where the text behind it does not go on. -/
theorem takeWhile_append_of_stops {p : Char → Bool} {ds : List Char} (h : ∀ c ∈ ds, p c = true)
    (hp : ∀ c, p c = true → c.isAlphanum = true) (hr : Stops r) :
    (ds ++ r).takeWhile p = ds ∧ (ds ++ r).dropWhile p = r := by
  rw [List.takeWhile_append_of_pos h, List.dropWhile_append_of_pos h]
  cases r with
  | nil => simp
  | cons c r =>
    -- Whatever is taken is a letter or a digit, and this is neither.
    have hc : ¬ p c = true := fun hpc => absurd (hp c hpc) (by simp [hr c rfl])
    rw [List.takeWhile_cons_of_neg hc, List.dropWhile_cons_of_neg hc]
    simp

/-- A number starts with a digit. -/
theorem IsNumeral.starts {ds : List Char} {n : Nat} (h : IsNumeral ds n) : Starts ds := by
  obtain ⟨c, ds', rfl⟩ := List.exists_cons_of_ne_nil h.ne_nil
  exact ⟨c, ds', rfl, .of_isAlphanum (isAlphanum_of_isDigit (h.digits c List.mem_cons_self))⟩

/-- A name starts with a letter. -/
theorem IsName.starts {as : List Char} {s : String} (h : IsName as s) : Starts as := by
  obtain ⟨c, as', rfl⟩ := List.exists_cons_of_ne_nil h.ne_nil
  exact ⟨c, as', rfl, .of_isAlphanum (isAlphanum_of_isAlpha (h.letters c List.mem_cons_self))⟩

/-- A number that is spelled is read, together with the white space behind it. -/
theorem IsNumeral.readNumber_eq {ds : List Char} {n : Nat} (h : IsNumeral ds n) (hr : Stops r) :
    readNumber (ds ++ r) = some (n, skipGap r) := by
  obtain ⟨htake, hdrop⟩ :=
    takeWhile_append_of_stops h.digits (fun _ hc => isAlphanum_of_isDigit hc) hr
  simp only [readNumber, (h.starts.append r).skipGap_eq, htake, hdrop, h.value]
  have hlt : ¬ Nat.pow 2 32 ≤ n := Nat.not_le.2 h.lt
  simp [h.ne_nil, hlt]

/-- So is a name. -/
theorem IsName.readName_eq {as : List Char} {s : String} (h : IsName as s) (hr : Stops r) :
    readName (as ++ r) = some (s, skipGap r) := by
  obtain ⟨htake, hdrop⟩ :=
    takeWhile_append_of_stops h.letters (fun _ hc => isAlphanum_of_isAlpha hc) hr
  simp only [readName, (h.starts.append r).skipGap_eq, htake, hdrop]
  simp [h.ne_nil, h.text]

/-- A name is not taken for a number. -/
theorem IsName.readNumber_eq_none {as : List Char} {s : String} (h : IsName as s) :
    readNumber (as ++ r) = none := by
  obtain ⟨c, as', rfl⟩ := List.exists_cons_of_ne_nil h.ne_nil
  -- A letter is no digit.
  have hc : c.isDigit = false := isDigit_eq_false (h.letters c List.mem_cons_self)
  simp only [readNumber, (h.starts.append r).skipGap_eq]
  simp [hc]

/-- No white space stands in the text. -/
def NoGap (cs : List Char) : Prop := ∀ c ∈ cs, isGap c = false

/-- Where there is no white space nothing is skipped. -/
theorem NoGap.skipGap_eq (h : NoGap cs) : skipGap cs = cs := by
  cases cs with
  | nil => rfl
  | cons c cs => exact skipGap_cons (h c List.mem_cons_self)

theorem NoGap.of_suffix (h : NoGap cs) (hr : r <:+ cs) : NoGap r := fun c hc => h c (hr.subset hc)

theorem NoGap.of_append (ds : List Char) (h : NoGap (ds ++ r)) : NoGap r :=
  fun c hc => h c (List.mem_append_right _ hc)

/-- What is read as a number spells it, if no white space stands in the text. -/
theorem IsNumeral.of_readNumber (hcs : NoGap cs) {n : Nat} (h : readNumber cs = some (n, r)) :
    ∃ ds, cs = ds ++ r ∧ IsNumeral ds n := by
  simp only [readNumber, hcs.skipGap_eq] at h
  split at h
  · cases h
  -- Digits were taken, and their value fits.
  · next hok =>
    rw [Bool.or_eq_true, not_or] at hok
    obtain ⟨hne, hlt⟩ := hok
    have hrest : NoGap (cs.dropWhile Char.isDigit) := hcs.of_suffix (List.dropWhile_suffix _)
    rw [hrest.skipGap_eq] at h
    cases h
    exact ⟨cs.takeWhile Char.isDigit, List.takeWhile_append_dropWhile.symm,
      by simpa using hne, List.all_eq_true.1 List.all_takeWhile, rfl, by simpa using hlt⟩

/-- What is read as a name spells it. -/
theorem IsName.of_readName (hcs : NoGap cs) {s : String} (h : readName cs = some (s, r)) :
    ∃ as, cs = as ++ r ∧ IsName as s := by
  simp only [readName, hcs.skipGap_eq] at h
  split at h
  · cases h
  · next hne =>
    have hrest : NoGap (cs.dropWhile Char.isAlpha) := hcs.of_suffix (List.dropWhile_suffix _)
    rw [hrest.skipGap_eq] at h
    cases h
    exact ⟨cs.takeWhile Char.isAlpha, List.takeWhile_append_dropWhile.symm,
      by simpa using hne, List.all_eq_true.1 List.all_takeWhile, rfl⟩

/-! ### Bases -/

/-- A number or a name may end in front of this, and it does not go on to a range. -/
structure EndsBase (r : List Char) : Prop where
  stops : Stops r
  dash : expect '-' (skipGap r) = none

/-- A separator does not go on with a number or a name. -/
theorem Stops.cons {c : Char} (h : c.isAlphanum = false) : Stops (c :: r) :=
  fun d hd => Option.some.inj (show some c = some d from hd) ▸ h

/-- A base may end in front of a separator that is no dash. -/
theorem EndsBase.cons {c : Char} (hc : c.isAlphanum = false) (hg : isGap c = false)
    (hd : c ≠ '-') : EndsBase (c :: r) :=
  ⟨.cons hc, by rw [skipGap_cons hg]; exact if_neg hd⟩

/-- A spelling of a base starts one. -/
theorem Base.Spelled.starts {b : Base} (h : b.Spelled u cs) : Starts cs := by
  cases h with
  | star => exact ⟨'*', [], rfl, by decide, by decide, by decide, by decide⟩
  | question => exact ⟨'?', [], rfl, by decide, by decide, by decide, by decide⟩
  | point h => exact h.starts
  | range ha hb => exact ha.starts.append _
  | names ha hb => exact ha.starts.append _

/-- What starts with a letter or a digit is not all values. -/
theorem readAll_eq_none {c : Char} (h : c.isAlphanum = true) : readAll u (c :: r) = none := by
  refine if_neg ?_
  simp only [Bool.or_eq_true, Bool.and_eq_true, decide_eq_true_eq]
  rintro (rfl | ⟨rfl, -⟩) <;> exact absurd h (by decide)

/-- A number is not taken for all values. -/
theorem IsNumeral.readAll_eq_none {ds : List Char} {n : Nat} (h : IsNumeral ds n) :
    readAll u (ds ++ r) = none := by
  obtain ⟨c, ds', rfl⟩ := List.exists_cons_of_ne_nil h.ne_nil
  exact Cron.readAll_eq_none (isAlphanum_of_isDigit (h.digits c List.mem_cons_self))

/-- Nor is a name. -/
theorem IsName.readAll_eq_none {as : List Char} {s : String} (h : IsName as s) :
    readAll u (as ++ r) = none := by
  obtain ⟨c, as', rfl⟩ := List.exists_cons_of_ne_nil h.ne_nil
  exact Cron.readAll_eq_none (isAlphanum_of_isAlpha (h.letters c List.mem_cons_self))

/-- A name in front of anything but a dash is not a base. -/
theorem IsName.readBase_eq_none {as : List Char} {s : String} (h : IsName as s) (hr : EndsBase r) :
    readBase u (as ++ r) = none := by
  simp [readBase, readRange, readNames, h.readAll_eq_none, h.readNumber_eq_none,
    h.readName_eq hr.stops, hr.dash]

/-- A base that is spelled is read, with or without the white space behind it. -/
theorem Base.Spelled.readBase_eq {b : Base} (h : b.Spelled u cs) (hr : EndsBase r) :
    ∃ r', readBase u (cs ++ r) = some (b, r') ∧ (r' = r ∨ r' = skipGap r) := by
  cases h with
  | star => exact ⟨r, by simp [readBase, readAll], .inl rfl⟩
  | question h => exact ⟨r, by simp [readBase, readAll, h], .inl rfl⟩
  | point h =>
    refine ⟨skipGap r, ?_, .inr rfl⟩
    simp [readBase, readRange, h.readAll_eq_none, h.readNumber_eq hr.stops, hr.dash]
  -- Both numbers are read, as a dash ends the first one.
  | @range as bs a b ha hb =>
    have hfirst := ha.readNumber_eq (r := '-' :: (bs ++ r)) (.cons (by decide))
    rw [skipGap_cons (by decide)] at hfirst
    have hrange : readRange (as ++ '-' :: (bs ++ r)) = some (.range a b, skipGap r) :=
      bind_expect_eq_some.2 ⟨a, _, b, hfirst, hb.readNumber_eq hr.stops, rfl⟩
    refine ⟨skipGap r, ?_, .inr rfl⟩
    rw [List.append_assoc, List.cons_append, readBase, ha.readAll_eq_none, hrange]
    rfl
  -- Both names are read.
  | @names as bs a b ha hb =>
    have hfirst := ha.readName_eq (r := '-' :: (bs ++ r)) (.cons (by decide))
    rw [skipGap_cons (by decide)] at hfirst
    have hnames : readNames (as ++ '-' :: (bs ++ r)) = some (.names a b, skipGap r) :=
      bind_expect_eq_some.2 ⟨a, _, b, hfirst, hb.readName_eq hr.stops, rfl⟩
    refine ⟨skipGap r, ?_, .inr rfl⟩
    -- A name is neither all values nor the start of a range of numbers.
    rw [List.append_assoc, List.cons_append, readBase, ha.readAll_eq_none, readRange,
      ha.readNumber_eq_none, hnames]
    rfl

/-- What is read as a base spells it. -/
theorem Base.Spelled.of_readBase (hcs : NoGap cs) {b : Base} (h : readBase u cs = some (b, r)) :
    ∃ w, cs = w ++ r ∧ b.Spelled u w := by
  -- All values are tried first.
  rcases orElse_eq_some h with h | h
  · cases cs with
    | nil => cases h
    | cons c cs =>
      rw [readAll] at h
      split at h
      · next hc =>
        cases h
        simp only [Bool.or_eq_true, Bool.and_eq_true, decide_eq_true_eq] at hc
        rcases hc with rfl | ⟨rfl, hu⟩
        · exact ⟨_, rfl, .star⟩
        · exact ⟨_, rfl, .question hu⟩
      · cases h
  -- Then a range of numbers.
  rcases orElse_eq_some h with h | h
  · obtain ⟨a, _, b, ha, hb, rfl⟩ := bind_expect_eq_some.1 h
    obtain ⟨as, rfl, has⟩ := IsNumeral.of_readNumber hcs ha
    obtain ⟨bs, rfl, hbs⟩ := IsNumeral.of_readNumber
      (NoGap.of_append (as ++ ['-']) (by simpa using hcs)) hb
    exact ⟨as ++ '-' :: bs, by simp, .range has hbs⟩
  -- Then a single number.
  rcases orElse_eq_some h with h | h
  · obtain ⟨⟨a, _⟩, ha, heq⟩ := Option.map_eq_some_iff.1 h
    obtain ⟨as, rfl, has⟩ := IsNumeral.of_readNumber hcs ha
    cases heq
    exact ⟨as, rfl, .point has⟩
  -- A range of names is left.
  · obtain ⟨a, _, b, ha, hb, rfl⟩ := bind_expect_eq_some.1 h
    obtain ⟨as, rfl, has⟩ := IsName.of_readName hcs ha
    obtain ⟨bs, rfl, hbs⟩ := IsName.of_readName
      (NoGap.of_append (as ++ ['-']) (by simpa using hcs)) hb
    exact ⟨as ++ '-' :: bs, by simp, .names has hbs⟩

/-! ### Items -/

/-- An item may end in front of this. -/
structure EndsItem (r : List Char) : Prop extends EndsBase r where
  stroke : expect '/' (skipGap r) = none

/-- A spelling of an item starts one. -/
theorem Item.Spelled.starts {i : Item} (h : i.Spelled u cs) : Starts cs := by
  cases h with
  | plain h => exact h.starts
  | every h _ => exact h.starts.append _
  | name h => exact h.starts

/-- An item that is spelled is read, with or without the white space behind it. -/
theorem Item.Spelled.readItem_eq {i : Item} (h : i.Spelled u cs) (hr : EndsItem r) :
    ∃ r', readItem u (cs ++ r) = some (i, r') ∧ (r' = r ∨ r' = skipGap r) := by
  cases h with
  | plain h =>
    obtain ⟨r', hread, hr'⟩ := h.readBase_eq hr.toEndsBase
    -- No step follows, since none follows what stands behind the item.
    have hstroke : expect '/' r' = none := by
      rcases hr' with rfl | rfl
      · exact expect_eq_none_of_skipGap (by decide) hr.stroke
      · exact hr.stroke
    exact ⟨r', by simp [readItem, readEvery, hread, hstroke], hr'⟩
  -- The base ends in front of the stroke, and its step ends the item.
  | @every cs ss b s h hs =>
    obtain ⟨r', hread, hr'⟩ := h.readBase_eq
      (r := '/' :: (ss ++ r)) (.cons (by decide) (by decide) (by decide))
    rw [skipGap_cons (by decide), or_self] at hr'
    subst hr'
    have hevery : readEvery u (cs ++ '/' :: (ss ++ r)) = some (.every b s, skipGap r) :=
      bind_expect_eq_some.2 ⟨b, _, s, hread, hs.readNumber_eq hr.stops, rfl⟩
    refine ⟨skipGap r, ?_, .inr rfl⟩
    rw [List.append_assoc, List.cons_append, readItem, hevery]
    rfl
  | name h =>
    refine ⟨skipGap r, ?_, .inr rfl⟩
    simp [readItem, readEvery, h.readBase_eq_none hr.toEndsBase, h.readName_eq hr.stops]

/-- What is read as an item spells it. -/
theorem Item.Spelled.of_readItem (hcs : NoGap cs) {i : Item} (h : readItem u cs = some (i, r)) :
    ∃ w, cs = w ++ r ∧ i.Spelled u w := by
  -- A base with a step is tried first.
  rcases orElse_eq_some h with h | h
  · obtain ⟨b, _, s, hb, hs, rfl⟩ := bind_expect_eq_some.1 h
    obtain ⟨bs, rfl, hbs⟩ := Base.Spelled.of_readBase hcs hb
    obtain ⟨ss, rfl, hss⟩ := IsNumeral.of_readNumber
      (NoGap.of_append (bs ++ ['/']) (by simpa using hcs)) hs
    exact ⟨bs ++ '/' :: ss, by simp, .every hbs hss⟩
  -- Then a base alone.
  rcases orElse_eq_some h with h | h
  · obtain ⟨⟨b, _⟩, hb, heq⟩ := Option.map_eq_some_iff.1 h
    obtain ⟨bs, rfl, hbs⟩ := Base.Spelled.of_readBase hcs hb
    cases heq
    exact ⟨bs, rfl, .plain hbs⟩
  -- A name is left.
  · obtain ⟨⟨s, _⟩, hs, heq⟩ := Option.map_eq_some_iff.1 h
    obtain ⟨as, rfl, has⟩ := IsName.of_readName hcs hs
    cases heq
    exact ⟨as, rfl, .name has⟩

/-! ### Fields -/

/-- A field may end in front of this. -/
structure EndsField (r : List Char) : Prop extends EndsItem r where
  comma : expect ',' (skipGap r) = none

/-- A field may end with the text. -/
theorem EndsField.nil : EndsField [] :=
  ⟨⟨⟨nofun, rfl⟩, rfl⟩, rfl⟩

/-- A field ends in front of white space and the start of another. -/
theorem EndsField.cons_of_starts (h : Starts r) : EndsField (' ' :: r) := by
  -- The text behind the space starts another field, so it goes on with none.
  have hskip : skipGap (' ' :: r) = r := h.skipGap_eq
  refine ⟨⟨⟨.cons (by decide), ?_⟩, ?_⟩, ?_⟩ <;> rw [hskip]
  · exact h.expect_eq_none fun hc => hc.dash rfl
  · exact h.expect_eq_none fun hc => hc.stroke rfl
  · exact h.expect_eq_none fun hc => hc.comma rfl

/-- An item may end in front of a comma. -/
theorem EndsItem.cons_comma : EndsItem (',' :: r) :=
  ⟨.cons (by decide) (by decide) (by decide), rfl⟩

namespace FieldSpelled

variable {is : List Item}

/-- A spelling of a field starts one. -/
theorem starts (h : FieldSpelled u cs is) : Starts cs := by
  cases h with
  | one h => exact h.starts
  | cons h _ => exact h.starts.append _

/-- No item is spelled by nothing. -/
theorem length_le (h : FieldSpelled u cs is) : is.length ≤ cs.length := by
  induction h with
  | one h =>
    obtain ⟨c, cs, rfl, -⟩ := h.starts
    simp
  | cons h _ ih => simp; omega

end FieldSpelled

/-- Without a comma no further item is read. -/
theorem readMoreItems_of_expect (h : expect ',' r = none) (fuel : Nat) :
    readMoreItems u fuel r = ([], r) := by
  cases fuel <;> simp [readMoreItems, h]

/-- No further item is read behind the last item of a field. -/
theorem Item.Spelled.readItem_eq_last {i : Item} (h : i.Spelled u cs) (hr : EndsField r) :
    ∃ r', readItem u (cs ++ r) = some (i, r') ∧ skipGap r' = skipGap r ∧ expect ',' r' = none := by
  -- It is read with the white space behind it or without, and no comma follows either way.
  obtain ⟨r', hread, rfl | rfl⟩ := h.readItem_eq hr.toEndsItem
  · exact ⟨r', hread, rfl, expect_eq_none_of_skipGap (by decide) hr.comma⟩
  · exact ⟨skipGap r, hread, skipGap_skipGap r, hr.comma⟩

/-- Nothing is taken from in front of a comma but the item. -/
theorem Item.Spelled.readItem_eq_comma {i : Item} (h : i.Spelled u cs) :
    readItem u (cs ++ ',' :: r) = some (i, ',' :: r) := by
  obtain ⟨r', hread, hr'⟩ := h.readItem_eq (r := ',' :: r) .cons_comma
  rw [skipGap_cons (by decide), or_self] at hr'
  rw [hread, hr']

namespace FieldSpelled

variable {is : List Item}

/-- Items behind a comma that are spelled are read. -/
theorem readMoreItems_eq (h : FieldSpelled u cs is) (hr : EndsField r) {fuel : Nat}
    (hfuel : is.length ≤ fuel) :
    ∃ r', readMoreItems u fuel (',' :: (cs ++ r)) = (is, r') ∧ skipGap r' = skipGap r := by
  -- Every item but the last has a comma behind it, and each takes one unit of fuel.
  -- The induction is on the items.
  induction h generalizing fuel with
  | one h =>
    obtain ⟨fuel, rfl⟩ := Nat.exists_eq_add_of_le' hfuel
    obtain ⟨r', hread, hskip, hcomma⟩ := h.readItem_eq_last hr
    refine ⟨r', ?_, hskip⟩
    simp [readMoreItems, expect, hread, readMoreItems_of_expect hcomma]
  | cons h _ ih =>
    obtain ⟨fuel, rfl⟩ := Nat.exists_eq_add_of_le' (Nat.le_trans (Nat.le_add_left 1 _) hfuel)
    obtain ⟨r', hrest, hskip⟩ := ih (Nat.le_of_succ_le_succ hfuel)
    refine ⟨r', ?_, hskip⟩
    simp [readMoreItems, expect, h.readItem_eq_comma, hrest]

/-- A field that is spelled is read, together with the white space behind it. -/
theorem readField_eq (h : FieldSpelled u cs is) (hr : EndsField r) :
    readField u (cs ++ r) = some (is, skipGap r) := by
  rw [readField, (h.starts.append r).skipGap_eq]
  cases h with
  | one h =>
    obtain ⟨r', hread, hskip, hcomma⟩ := h.readItem_eq_last hr
    simp [hread, readMoreItems_of_expect hcomma, hskip]
  | @cons cs ds i is h hs =>
    -- There is fuel for as many items as there are characters.
    have hfuel : is.length ≤ (',' :: (ds ++ r)).length := by
      have := hs.length_le
      simp
      omega
    obtain ⟨r', hrest, hskip⟩ := hs.readMoreItems_eq hr hfuel
    rw [List.append_assoc, List.cons_append, h.readItem_eq_comma]
    simp only [Option.bind_eq_bind, Option.bind_some, hrest, hskip]
    rfl

/-- What is read as further items spells them, each behind a comma. -/
theorem of_readMoreItems {fuel : Nat} (hcs : NoGap cs) (h : readMoreItems u fuel cs = (is, r)) :
    (is = [] ∧ cs = r) ∨ ∃ ds, cs = ',' :: (ds ++ r) ∧ FieldSpelled u ds is := by
  -- The induction is on the fuel: each round takes a comma and an item, or ends.
  induction fuel generalizing cs is with
  | zero =>
    cases h
    exact .inl ⟨rfl, rfl⟩
  | succ fuel ih =>
    rw [readMoreItems] at h
    split at h
    · next i rest hitem =>
      obtain ⟨ds, hds, hitem⟩ := Option.bind_eq_some_iff.1 hitem
      obtain rfl := expect_eq_some.1 hds
      obtain ⟨w, rfl, hw⟩ := Item.Spelled.of_readItem (NoGap.of_append [','] hcs) hitem
      cases h
      -- The rest is empty, and the item was the last, or it starts with the next comma.
      rcases ih (NoGap.of_append (',' :: w) hcs) rfl with ⟨his, hr⟩ | ⟨ds, hrest, hds⟩
      · rw [his, ← hr]
        exact .inr ⟨w, rfl, .one hw⟩
      · refine .inr ⟨w ++ ',' :: ds, ?_, .cons hw hds⟩
        rw [List.append_assoc, List.cons_append, ← hrest]
    -- No further item was found.
    · cases h
      exact .inl ⟨rfl, rfl⟩

/-- What is read as a field without white space spells it. -/
theorem of_readField (hcs : NoGap cs) (h : readField u cs = some (is, [])) :
    FieldSpelled u cs is := by
  rw [readField, hcs.skipGap_eq] at h
  simp only [Option.bind_eq_bind, Option.bind_eq_some_iff, Prod.exists] at h
  obtain ⟨i, rest, hitem, h⟩ := h
  obtain ⟨w, rfl, hw⟩ := Item.Spelled.of_readItem hcs hitem
  -- Behind the first item there is no white space either.
  have hrest : NoGap rest := hcs.of_append _
  cases hmore : readMoreItems u rest.length rest with
  | mk is' r' =>
    rw [hmore] at h
    obtain ⟨rfl, hend⟩ := Prod.mk.inj (Option.some.inj h)
    -- The text has no white space, so nothing was skipped at its end.
    rcases of_readMoreItems hrest hmore with ⟨rfl, rfl⟩ | ⟨ds, rfl, hds⟩
    · rw [hrest.skipGap_eq] at hend
      subst hend
      simpa using FieldSpelled.one hw
    · have hr' : NoGap r' := NoGap.of_append (',' :: ds) (by simpa using hrest)
      rw [hr'.skipGap_eq] at hend
      subst hend
      simpa using FieldSpelled.cons hw hds

end FieldSpelled

/-- The values of a field that is spelled are read. -/
theorem FieldSpelled.readValues_eq {is : List Item} {vs : List Nat} (h : FieldSpelled u cs is)
    (hvs : fieldValues u is = .ok vs) (hr : EndsField r) :
    readValues u (cs ++ r) = .ok (vs, skipGap r) := by
  rw [readValues, h.readField_eq hr]
  simp [hvs, Except.map]

/-- The items of a field without white space that is valid alone. -/
theorem spelled_of_readValues {vs : List Nat} (hcs : NoGap cs)
    (h : readValues u cs = .ok (vs, [])) :
    ∃ is, FieldSpelled u cs is ∧ fieldValues u is = .ok vs := by
  rw [readValues] at h
  split at h
  · cases h
  · next is r hread =>
    -- The items are read, and their values are those that were found.
    cases hvs : fieldValues u is with
    | error e => rw [hvs] at h; cases h
    | ok ws =>
      rw [hvs] at h
      cases h
      exact ⟨is, .of_readField hcs hread, hvs⟩

/-- A field that is valid alone is read the same in front of another one. -/
theorem readValues_append {vs : List Nat} (hcs : NoGap cs)
    (h : readValues u cs = .ok (vs, [])) (hr : Starts r) :
    readValues u (cs ++ ' ' :: r) = .ok (vs, r) := by
  obtain ⟨is, hspelled, hvs⟩ := spelled_of_readValues hcs h
  rw [hspelled.readValues_eq hvs (.cons_of_starts hr)]
  exact congrArg (fun r => Except.ok (vs, r)) hr.skipGap_eq

end FlowCadence.Cron
