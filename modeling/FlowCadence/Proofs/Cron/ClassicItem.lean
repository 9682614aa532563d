import FlowCadence.Cron.Schedule
import FlowCadence.Proofs.Cron.Spelling
import Mathlib.Data.List.Forall2
/-! # Classic weekday items

An item of a classic weekday field is written in the classic numbering, and rewritten to one
or two items of the numbering from Sunday.  Here the items are given by their structure: what
each of them means, how it is written, and which items the rewritten text spells.

A range that ends on 7 is where the two numberings part.  Sunday stands behind Saturday in
the one and in front of Monday in the other, so the range becomes one up to Saturday and a
Sunday of its own, which is there also if the steps of the range miss it.  A range from 7 to
7 becomes one from Sunday to Saturday.

## Key results

* `ClassicItem.shiftWeekdayItem_text`: what the text of an item is rewritten to
* `shiftWeekdays_fieldText`: the rewritten field
* `ClassicItem.denotes_toItems_iff`: what the rewritten items denote -/

namespace FlowCadence.Cron

/-- A step from one weekday to another. -/
structure Step where
  size : Nat
  pos : 0 < size
  le : size ≤ 7

/-- The names of the days of the week, by their classic numbers. -/
def dayNames : List String := ["sun", "mon", "tue", "wed", "thu", "fri", "sat"]

/-- An item of a classic weekday field. -/
inductive ClassicItem where
  | star (step : Option Step)
  | day (n : Nat) (h : n ≤ 7)
  | range (a b : Nat) (h : a ≤ b ∧ b ≤ 7) (step : Option Step)
  /-- A name in either case. -/
  | name (s : String) (w : Nat) (h : dayNames[w]? = some s.toLower)

/-- The number of days from one to the next. -/
def stepSize : Option Step → Nat
  | none => 1
  | some s => s.size

/-- How a step is written behind an item. -/
def stepText : Option Step → List Char
  | none => []
  | some s => ['/', s.size.digitChar]

namespace ClassicItem

/-- How an item is written. -/
def text : ClassicItem → List Char
  | star s => ['*'] ++ stepText s
  | day n _ => [n.digitChar]
  | range a b _ s => [a.digitChar, '-', b.digitChar] ++ stepText s
  | name s _ _ => s.toList

/-- The weekdays, from 0 for Sunday to 6 for Saturday, that an item means. -/
def Means (w : Nat) : ClassicItem → Prop
  | star s => w ≤ 6 ∧ stepSize s ∣ w
  | day n _ => w = n % 7
  | range a b _ s => ∃ d, a ≤ d ∧ d ≤ b ∧ stepSize s ∣ d - a ∧ w = d % 7
  | name _ v _ => w = v

/-- The weekdays that come with an item, whether it means them or not: the Sunday of a range
    that ends on 7, and the whole week of one that starts there too. -/
def Spills (w : Nat) : ClassicItem → Prop
  | range a b _ s => b = 7 ∧ (1 ≤ a ∧ a ≤ 6 ∧ w = 0 ∨ a = 7 ∧ w ≤ 6 ∧ stepSize s ∣ w)
  | _ => False

end ClassicItem

/-- How a field of classic items is written. -/
def fieldText (is : List ClassicItem) : List Char := [','].intercalate (is.map ClassicItem.text)

/-! ### Digits -/

/-- The digits up to 7 are digits, and each writes its own number. -/
theorem digitChar_spec :
    ∀ n ≤ 7, n.digitChar.isDigit = true ∧ Nat.ofDigitChars 10 [n.digitChar] 0 = n := by
  decide

/-- A digit up to 7 writes its number. -/
theorem isNumeral_digitChar {n : Nat} (h : n ≤ 7) : IsNumeral [n.digitChar] n where
  ne_nil := by simp
  digits := by simpa using (digitChar_spec n h).1
  value := (digitChar_spec n h).2
  lt := Nat.lt_of_le_of_lt h (by decide)

/-- Digits differ where the numbers do. -/
theorem digitChar_eq_iff {n m : Nat} (hn : n ≤ 7) (hm : m ≤ 7) :
    n.digitChar = m.digitChar ↔ n = m := by
  refine ⟨fun h => ?_, fun h => h ▸ rfl⟩
  rw [← (digitChar_spec n hn).2, h, (digitChar_spec m hm).2]

/-- A day moves on by one, and 7 to the first place. -/
theorem shiftWeekday_digitChar {n : Nat} (h : n ≤ 7) :
    shiftWeekday [n.digitChar] = .ok [(n % 7 + 1).digitChar] := by
  obtain ⟨hdigit, hvalue⟩ := digitChar_spec n h
  simp only [shiftWeekday, hvalue]
  rcases Nat.lt_or_ge n 7 with hlt | hge
  -- A day before 7 moves on by one.
  · simp [hdigit, Nat.le_of_lt_succ hlt, Nat.mod_eq_of_lt hlt,
      Nat.toDigits_of_lt_base (show n + 1 < 10 by omega)]
  -- Sunday at the end of the week is the first day.
  · obtain rfl : n = 7 := by omega
    rfl

/-! ### Rewriting -/

/-- An item of the numbering from Sunday, with or without a step. -/
def withStep (b : Base) : Option Step → Item
  | none => .plain b
  | some s => .every b s.size

/-- The items of the numbering from Sunday that an item is rewritten to. -/
def ClassicItem.toItems : ClassicItem → List Item
  | star s => [withStep .all s]
  | day n _ => [.plain (.point (n % 7 + 1))]
  | range a b _ s =>
    if b = 7 then
      if a % 7 = 0 then [withStep (.range 1 7) s]
      else [withStep (.range (a + 1) 7) s, .plain (.point 1)]
    else [withStep (.range (a + 1) (b + 1)) s]
  | name s _ _ => [.name s]

/-- No item is rewritten to nothing. -/
theorem ClassicItem.toItems_ne_nil (i : ClassicItem) : i.toItems ≠ [] := by
  cases i with
  | range a b h s =>
    rw [toItems]
    split
    · split <;> simp
    · simp
  | star | day | name => simp [toItems]

/-- A step that is written behind a base spells the item with the step. -/
theorem Base.Spelled.withStep {u : Unit} {cs : List Char} {b : Base} (h : b.Spelled u cs)
    (s : Option Step) : (withStep b s).Spelled u (cs ++ stepText s) := by
  cases s with
  | none => exact (List.append_nil cs).symm ▸ .plain h
  | some s => exact .every h (isNumeral_digitChar s.le)

/-- The step is cut off from the item in front of it. -/
theorem cut_stepText {cs : List Char} (h : '/' ∉ cs) (s : Option Step) :
    Text.cut '/' (cs ++ stepText s) = s.map fun s => (cs, [s.size.digitChar]) := by
  cases s with
  -- Nothing in the text is a stroke, so nothing is cut.
  | none => simpa [stepText, Text.cut_eq_none_iff] using h
  | some s => exact Text.cut_eq_some_iff.2 ⟨rfl, h⟩

/-- All days stay all days. -/
theorem shiftWeekdayItem_star (s : Option Step) :
    shiftWeekdayItem (['*'] ++ stepText s) = .ok [['*'] ++ stepText s] := by
  rw [shiftWeekdayItem, cut_stepText (by decide)]
  cases s <;> rfl

/-- A single day moves on. -/
theorem shiftWeekdayItem_day {n : Nat} (h : n ≤ 7) :
    shiftWeekdayItem [n.digitChar] = .ok [[(n % 7 + 1).digitChar]] := by
  have hstroke : Text.cut '/' [n.digitChar] = none := Text.cut_eq_none_iff.2 (by simp)
  have hdash : Text.cut '-' [n.digitChar] = none := Text.cut_eq_none_iff.2 (by simp)
  simp only [shiftWeekdayItem, hstroke, hdash, shiftWeekday_digitChar h]
  rfl

/-- A range moves on, or it is cut where it ends on 7. -/
theorem shiftWeekdayItem_range {a b : Nat} (h : a ≤ b ∧ b ≤ 7) (s : Option Step) :
    shiftWeekdayItem ([a.digitChar, '-', b.digitChar] ++ stepText s) = .ok (
      if b = 7 then
        if a % 7 = 0 then [['1', '-', '7'] ++ stepText s]
        else [[(a + 1).digitChar, '-', '7'] ++ stepText s, ['1']]
      else [[(a + 1).digitChar, '-', (b + 1).digitChar] ++ stepText s]) := by
  have ha : a ≤ 7 := Nat.le_trans h.1 h.2
  -- The step is cut off first, and then the range into its days.
  have hcut : Text.cut '/' ([a.digitChar, '-', b.digitChar] ++ stepText s) = _ :=
    cut_stepText (by simp) s
  have hdash : Text.cut '-' [a.digitChar, '-', b.digitChar] = some ([a.digitChar], [b.digitChar]) :=
    Text.cut_eq_some_iff.2 ⟨rfl, by simp⟩
  have hseven : [b.digitChar] = ['7'] ↔ b = 7 := by
    rw [List.singleton_inj]
    exact digitChar_eq_iff h.2 (Nat.le_refl 7)
  have hone : [(a % 7 + 1).digitChar] = ['1'] ↔ a % 7 = 0 := by
    have hdigit := digitChar_eq_iff (n := a % 7 + 1) (m := 1) (by omega) (by decide)
    rw [List.singleton_inj]
    exact hdigit.trans (by omega)
  -- The two parts that the step, if there is one, leaves of the text.
  have hparts : shiftWeekdayItem ([a.digitChar, '-', b.digitChar] ++ stepText s) = (do
      let start ← shiftWeekday [a.digitChar]
      if [b.digitChar] = ['7'] then
        if start = ['1'] then return ["1-7".toList ++ stepText s]
        else return [start ++ "-7".toList ++ stepText s, ['1']]
      else
        let stop ← shiftWeekday [b.digitChar]
        return [start ++ '-' :: stop ++ stepText s]) := by
    rw [shiftWeekdayItem, hcut]
    cases s with
    | none => simp only [Option.map_none, stepText, List.append_nil, hdash]
    | some s => simp only [Option.map_some, hdash, stepText]
  rw [hparts, shiftWeekday_digitChar ha, shiftWeekday_digitChar h.2]
  simp only [ok_bind, hseven, hone]
  -- It ends on 7, or before.
  split
  · split
    · rfl
    -- A range from another day up to 7 keeps its days.
    · rw [show a % 7 = a by omega]
      rfl
  -- Both days move on, as neither is 7.
  · rw [Nat.mod_eq_of_lt (show a < 7 by omega), Nat.mod_eq_of_lt (show b < 7 by omega)]
    rfl

/-- The name of a day is a name. -/
theorem isName_of_dayNames {s : String} (h : s.toLower ∈ dayNames) : IsName s.toList s := by
  -- Lower case is what the names are compared in.
  have hlower : (s.map Char.toLower).toList = s.toList.map Char.toLower := by simp
  have hnames : ∀ n ∈ dayNames, n.toList ≠ [] ∧ n.toList.all Char.isAlpha = true := by decide
  obtain ⟨hne, hletters⟩ := hnames (s.map Char.toLower) h
  rw [hlower] at hne hletters
  exact ⟨by simpa using hne, fun c hc => isAlpha_of_toLower
    (List.all_eq_true.1 hletters _ (List.mem_map_of_mem hc)), by simp⟩

/-- A name is left as it is. -/
theorem shiftWeekdayItem_name {as : List Char} {s : String} (h : IsName as s) :
    shiftWeekdayItem as = .ok [as] := by
  -- A name has neither a stroke nor a dash.
  have hstroke : Text.cut '/' as = none :=
    Text.cut_eq_none_iff.2 fun hmem => absurd (h.letters _ hmem) (by decide)
  have hdash : Text.cut '-' as = none :=
    Text.cut_eq_none_iff.2 fun hmem => absurd (h.letters _ hmem) (by decide)
  have hshift : shiftWeekday as = .ok as := by
    obtain ⟨c, cs, rfl⟩ := List.exists_cons_of_ne_nil h.ne_nil
    have hdigit := isDigit_eq_false (h.letters c List.mem_cons_self)
    simp [shiftWeekday, hdigit]
  simp only [shiftWeekdayItem, hstroke, hdash, hshift, ok_bind, List.append_nil]
  rfl

/-- The text of an item is rewritten to texts of the items of the other numbering. -/
theorem ClassicItem.shiftWeekdayItem_text (i : ClassicItem) :
    ∃ ws, shiftWeekdayItem i.text = .ok ws ∧
      List.Forall₂ (Item.Spelled .weekday) ws i.toItems := by
  -- The texts are spellings digit by digit.
  have hdigit (n : Nat) (h : n ≤ 7) : Base.Spelled .weekday [n.digitChar] (.point n) :=
    .point (isNumeral_digitChar h)
  have hrange (a b : Nat) (ha : a ≤ 7) (hb : b ≤ 7) :
      Base.Spelled .weekday [a.digitChar, '-', b.digitChar] (.range a b) :=
    .range (isNumeral_digitChar ha) (isNumeral_digitChar hb)
  cases i with
  | star s => exact ⟨_, shiftWeekdayItem_star s, .cons (Base.Spelled.star.withStep s) .nil⟩
  | day n h => exact ⟨_, shiftWeekdayItem_day h, .cons (.plain (hdigit _ (by omega))) .nil⟩
  | range a b h s =>
    refine ⟨_, shiftWeekdayItem_range h s, ?_⟩
    rw [toItems]
    -- The three ways to rewrite a range.
    split
    · split
      · exact .cons ((hrange 1 7 (by decide) (by decide)).withStep s) .nil
      · exact .cons ((hrange _ 7 (by omega) (by decide)).withStep s)
          (.cons (.plain (hdigit 1 (by decide))) .nil)
    · exact .cons ((hrange _ _ (by omega) (by omega)).withStep s) .nil
  | name s w h =>
    have hname := isName_of_dayNames (List.mem_of_getElem? h)
    exact ⟨_, shiftWeekdayItem_name hname, .cons (.name hname) .nil⟩

/-- No comma stands in an item. -/
theorem ClassicItem.comma_notMem_text (i : ClassicItem) : ',' ∉ i.text := by
  -- Nor does one stand in a step.
  have hstep (s : Option Step) : ',' ∉ stepText s := by
    cases s <;> simp [stepText]
  cases i with
  | star s => simpa [text] using hstep s
  | day n h => simp [text]
  | range a b h s => simpa [text] using hstep s
  | name s w h =>
    have hname := isName_of_dayNames (List.mem_of_getElem? h)
    exact fun hmem => absurd (hname.letters _ hmem) (by decide)

/-- Texts of items with commas between them spell a field. -/
theorem FieldSpelled.intercalate {u : Unit} {ws : List (List Char)} {is : List Item}
    (h : List.Forall₂ (Item.Spelled u) ws is) (hne : ws ≠ []) :
    FieldSpelled u ([','].intercalate ws) is := by
  induction h with
  | nil => exact absurd rfl hne
  | @cons w i ws is hw hws ih =>
    -- A single item is the field, and otherwise a comma follows the first one.
    cases ws with
    | nil =>
      cases hws
      simpa [List.intercalate] using FieldSpelled.one hw
    | cons v ws =>
      rw [intercalate_cons_cons]
      exact .cons hw (ih (by simp))

/-- A field of classic items is rewritten to one that spells the items of the other numbering. -/
theorem shiftWeekdays_fieldText {is : List ClassicItem} (hne : is ≠ []) :
    ∃ cs, shiftWeekdays (fieldText is) = .ok cs ∧
      FieldSpelled .weekday cs (is.flatMap ClassicItem.toItems) := by
  -- Items have no comma, so the field is split where they were joined.
  have hsplit : Text.splitOn (· = ',') (fieldText is) = is.map ClassicItem.text := by
    refine Text.splitOn_intercalate (by simpa using hne) fun w hw => ?_
    obtain ⟨i, -, rfl⟩ := List.mem_map.1 hw
    exact i.comma_notMem_text
  -- Each item has a list of texts, and the texts of all lists are joined.
  have hitems : ∃ wss, (is.map ClassicItem.text).mapM shiftWeekdayItem = .ok wss ∧
      List.Forall₂ (Item.Spelled .weekday) wss.flatten (is.flatMap ClassicItem.toItems) := by
    clear hne hsplit
    -- By induction on the items.
    induction is with
    | nil => exact ⟨[], rfl, .nil⟩
    | cons i is ih =>
      obtain ⟨ws, hws, hspelled⟩ := i.shiftWeekdayItem_text
      obtain ⟨wss, hwss, hrest⟩ := ih
      refine ⟨ws :: wss, ?_, ?_⟩
      · rw [List.map_cons, List.mapM_cons, hws, hwss]
        rfl
      · simpa using List.rel_append hspelled hrest
  obtain ⟨wss, hwss, hspelled⟩ := hitems
  -- The list is not empty, as no item is rewritten to nothing.
  have hflat : wss.flatten ≠ [] := by
    intro hnil
    rw [hnil, List.forall₂_nil_left_iff, List.flatMap_eq_nil_iff] at hspelled
    obtain ⟨i, hi⟩ := List.exists_mem_of_ne_nil is hne
    exact i.toItems_ne_nil (hspelled i hi)
  exact ⟨_, by rw [shiftWeekdays, hsplit, hwss]; rfl, .intercalate hspelled hflat⟩

/-! ### Meaning -/

/-- All days with a step are counted from the first of the unit. -/
theorem denotes_withStep_all {u : Unit} {s : Option Step} {v : Nat} :
    (withStep .all s).Denotes u v ↔ u.lo ≤ v ∧ v ≤ u.hi ∧ stepSize s ∣ v - u.lo := by
  cases s <;> simp [withStep, stepSize, Item.Denotes, Base.Spans, and_assoc]

/-- A range with a step is counted from its first day. -/
theorem denotes_withStep_range {u : Unit} {s : Option Step} {a b v : Nat} :
    (withStep (.range a b) s).Denotes u v ↔ a ≤ v ∧ v ≤ b ∧ stepSize s ∣ v - a := by
  cases s <;> simp [withStep, stepSize, Item.Denotes, Base.Spans, and_assoc]

/-- A single value denotes itself. -/
theorem denotes_point {u : Unit} {a v : Nat} : (Item.plain (.point a)).Denotes u v ↔ v = a := by
  simp [Item.Denotes, Base.Spans, and_assoc]
  omega

/-- A day has one name. -/
theorem ofName_weekday {s : String} {w : Nat} (h : dayNames[w]? = some s.toLower) :
    Unit.weekday.ofName s = .ok (w + 1) := by
  -- The names of the two tables agree, which is checked day by day.
  have hnames : ∀ v, v < 7 → (weekdayNames.find? fun n => n.2.contains (dayNames[v]?.getD "")).map
      (·.1) = some (v + 1) := by decide
  have hw : w < 7 := (List.getElem?_eq_some_iff.1 h).1
  have hfind := hnames w hw
  rw [h] at hfind
  simp only [Unit.ofName, lookUpName]
  rw [show (weekdayNames.find? fun n => n.2.contains s.toLower).map (·.1) = some (w + 1) from hfind]
  rfl

namespace ClassicItem

/-- The weekdays of a range that ends before 7 are its days. -/
theorem exists_mod_iff {a b n w : Nat} (hb : b ≤ 6) :
    (∃ d, a ≤ d ∧ d ≤ b ∧ n ∣ d - a ∧ w = d % 7) ↔ a ≤ w ∧ w ≤ b ∧ n ∣ w - a := by
  constructor
  -- No day up to 6 is changed by counting modulo 7.
  · rintro ⟨d, had, hdb, hn, rfl⟩
    rw [Nat.mod_eq_of_lt (by omega)]
    exact ⟨had, hdb, hn⟩
  · rintro ⟨haw, hwb, hn⟩
    exact ⟨w, haw, hwb, hn, (Nat.mod_eq_of_lt (by omega)).symm⟩

/-- In a range that ends on 7 Sunday is behind the other days. -/
theorem exists_mod_seven_iff {a n w : Nat} (ha : a ≤ 7) :
    (∃ d, a ≤ d ∧ d ≤ 7 ∧ n ∣ d - a ∧ w = d % 7) ↔
      (a ≤ w ∧ w ≤ 6 ∧ n ∣ w - a) ∨ (w = 0 ∧ n ∣ 7 - a) := by
  rw [← exists_mod_iff (Nat.le_refl 6)]
  constructor
  -- The day is 7, or it comes before.
  · rintro ⟨d, had, hd, hn, hw⟩
    rcases Nat.lt_or_ge d 7 with hlt | hge
    · exact .inl ⟨d, had, by omega, hn, hw⟩
    · obtain rfl : d = 7 := by omega
      exact .inr ⟨hw, hn⟩
  · rintro (⟨d, had, hd, hn, hw⟩ | ⟨hw, hn⟩)
    · exact ⟨d, had, by omega, hn, hw⟩
    · exact ⟨7, ha, Nat.le_refl 7, hn, hw⟩

/-- The items that an item is rewritten to denote the days that it means and those that
    come with it. -/
theorem denotes_toItems_iff (i : ClassicItem) {w : Nat} :
    (w ≤ 6 ∧ ∃ j ∈ i.toItems, j.Denotes .weekday (w + 1)) ↔ i.Means w ∨ i.Spills w := by
  cases i with
  | star s =>
    simp only [toItems, List.mem_singleton, exists_eq_left, denotes_withStep_all, Means, Spills,
      or_false, Unit.lo, Unit.hi, Nat.add_sub_cancel]
    omega
  | day n h =>
    simp only [toItems, List.mem_singleton, exists_eq_left, denotes_point, Means, Spills, or_false]
    omega
  | name s v h =>
    simp only [toItems, List.mem_singleton, exists_eq_left, Item.Denotes, ofName_weekday h, Means,
      Spills, or_false, Except.ok.injEq]
    have hv : v < 7 := (List.getElem?_eq_some_iff.1 h).1
    omega
  | range a b h s =>
    -- Moving on by one changes neither the bound nor the steps.
    have hsucc : w + 1 ≤ 7 ↔ w ≤ 6 := by omega
    have hsub : w + 1 - (a + 1) = w - a := by omega
    have hsunday : w = 0 → stepSize s ∣ w := fun h => h ▸ Nat.dvd_zero _
    simp only [toItems, Means, Spills]
    -- The range ends before 7, starts on either Sunday, or starts on another day.
    rcases (show b ≤ 6 ∨ b = 7 ∧ a = 0 ∨ b = 7 ∧ a = 7 ∨ b = 7 ∧ 1 ≤ a ∧ a ≤ 6 by omega) with
      hb | ⟨rfl, rfl⟩ | ⟨rfl, rfl⟩ | ⟨rfl, ha⟩
    -- Before 7 the days just move on.
    · rw [exists_mod_iff hb, if_neg (by omega)]
      simp only [List.mem_singleton, exists_eq_left, denotes_withStep_range, hsub]
      grind
    -- From the first Sunday on, the days up to Saturday are moved on, and 7 is the first again.
    · rw [exists_mod_seven_iff h.1, if_pos rfl, if_pos rfl]
      simp only [List.mem_singleton, exists_eq_left, denotes_withStep_range, hsub]
      grind
    -- From 7 to 7 the days that the range means are Sunday, and the whole week is what it becomes.
    · rw [exists_mod_seven_iff h.1, if_pos rfl, if_pos rfl]
      simp only [List.mem_singleton, exists_eq_left, denotes_withStep_range]
      grind
    -- The range up to Saturday, and Sunday besides.
    · rw [exists_mod_seven_iff h.1, if_pos rfl, if_neg (by omega)]
      simp only [List.mem_cons, List.not_mem_nil, or_false, exists_eq_or_imp, exists_eq_left,
        denotes_withStep_range, denotes_point, hsub]
      grind

end ClassicItem

end FlowCadence.Cron
