import FlowCadence.Proofs.Cron.ClassicItem
import FlowCadence.Proofs.Cron.FireTimes
/-! # Classic weekdays

An expression of five words whose weekdays are classic items is always accepted.  It fires on
the weekdays that its items mean, and on those that come with a range which ends on 7.  Its
weekdays are just those that are meant when each of the others is meant by some item of the
list; a range from Friday to Sunday in steps of three has a Sunday too many.

## Key results

* `exists_weekdays`: the values of the rewritten field
* `ClassicExpression.parse_eq_ok`: what the expression is parsed to
* `ClassicExpression.weekdays_exact_iff`: when it fires on the weekdays that are meant -/

namespace FlowCadence.Cron

variable {u : Unit}

/-! ### Values -/

/-- Values within the bounds of a unit pass the check. -/
theorem Unit.mapM_check_eq_ok {vs : List Nat} (h : ∀ v ∈ vs, u.lo ≤ v ∧ v ≤ u.hi) :
    vs.mapM u.check = .ok vs := by
  induction vs with
  | nil => rfl
  | cons v vs ih =>
    obtain ⟨hlo, hhi⟩ := h v List.mem_cons_self
    have hcheck : u.check v = .ok v := by
      rw [check, if_neg (by omega), if_neg (by omega)]
    rw [List.mapM_cons, hcheck, ih fun w hw => h w (List.mem_cons_of_mem _ hw)]
    rfl

/-- A base that lists values within the bounds is not refused, with a step or without. -/
theorem exists_values_withStep {b : Base} {x y : Nat} (hb : b.values .weekday = .ok (interval x y))
    (hpoint : ∀ a, b ≠ .point a) (hx : 1 ≤ x) (hy : y ≤ 7) (s : Option Step) :
    ∃ vs, (withStep b s).values .weekday = .ok vs := by
  cases s with
  | none =>
    -- Without a step what the base lists is checked.
    refine ⟨interval x y, ?_⟩
    rw [withStep, Item.values, hb]
    exact Unit.mapM_check_eq_ok fun v hv => by
      rw [mem_interval] at hv
      exact ⟨Nat.le_trans hx hv.1, Nat.le_trans hv.2 hy⟩
  | some s =>
    -- With a step the base is only asked for its values.
    rw [withStep, Item.values_every (u := .weekday) ⟨s.pos, s.le⟩]
    cases b with
    | point a => exact absurd rfl (hpoint a)
    | all | range _ _ | names _ _ =>
      dsimp only
      rw [hb]
      exact ⟨_, rfl⟩

/-- A range within the week lists its days. -/
theorem values_range {a b : Nat} (h : 1 ≤ a ∧ a ≤ b ∧ b ≤ 7) :
    (Base.range a b).values .weekday = .ok (interval a b) := by
  have hordered : Unit.weekday.ordered a b = true := by
    simp [Unit.ordered, Unit.lo, Unit.hi, h]
  rw [Base.values, hordered]
  rfl

/-- A day of the week lists itself. -/
theorem values_point {a : Nat} (h : 1 ≤ a ∧ a ≤ 7) :
    (Item.plain (.point a)).values .weekday = .ok [a] :=
  Unit.mapM_check_eq_ok fun v hv => by
    obtain rfl := List.mem_singleton.1 hv
    exact h

/-- An item is rewritten to items that are not refused. -/
theorem ClassicItem.exists_values (i : ClassicItem) :
    ∀ j ∈ i.toItems, ∃ vs, j.values .weekday = .ok vs := by
  -- Ranges are within the week, with a step or without.
  have hrange {a b : Nat} (h : 1 ≤ a ∧ a ≤ b ∧ b ≤ 7) (s : Option Step) :=
    exists_values_withStep (values_range h) (by simp) h.1 h.2.2 s
  cases i with
  | star s =>
    intro j hj
    obtain rfl := List.mem_singleton.1 hj
    exact exists_values_withStep (x := 1) (y := 7) rfl (by simp) (by decide) (by decide) s
  | day n h =>
    intro j hj
    obtain rfl := List.mem_singleton.1 hj
    exact ⟨_, values_point (by omega)⟩
  | name s w h =>
    intro j hj
    obtain rfl := List.mem_singleton.1 hj
    exact ⟨[w + 1], by rw [Item.values, ofName_weekday h]; rfl⟩
  | range a b h s =>
    intro j hj
    rw [toItems] at hj
    split at hj
    -- It starts on either Sunday, or on another day, and then Sunday is an item of its own.
    · split at hj
      · obtain rfl := List.mem_singleton.1 hj
        exact hrange (by decide) s
      · rcases List.mem_cons.1 hj with rfl | hj
        · exact hrange (by omega) s
        · obtain rfl := List.mem_singleton.1 hj
          exact ⟨_, values_point (by decide)⟩
    · obtain rfl := List.mem_singleton.1 hj
      exact hrange (by omega) s

/-- The rewritten field has the days that its items mean and those that come with them. -/
theorem exists_weekdays (is : List ClassicItem) :
    ∃ vs, fieldValues .weekday (is.flatMap ClassicItem.toItems) = .ok vs ∧
      ∀ w, w + 1 ∈ vs ↔ ∃ i ∈ is, i.Means w ∨ i.Spills w := by
  -- No item is refused, so the field is not.
  obtain ⟨vss, hvss⟩ :
      ∃ vss, (is.flatMap ClassicItem.toItems).mapM (Item.values .weekday) = .ok vss :=
    exists_mapM_ok fun j hj => by
      obtain ⟨i, -, hj⟩ := List.mem_flatMap.1 hj
      exact i.exists_values j hj
  obtain ⟨vs, hvs⟩ : ∃ vs, fieldValues .weekday (is.flatMap ClassicItem.toItems) = .ok vs :=
    ⟨_, by rw [fieldValues, hvss]; rfl⟩
  refine ⟨vs, hvs, fun w => ?_⟩
  rw [mem_fieldValues hvs]
  simp only [← ClassicItem.denotes_toItems_iff, List.mem_flatMap, Unit.lo, Unit.hi]
  constructor
  -- A weekday that is listed is one of the seven.
  · rintro ⟨hw, j, ⟨i, hi, hj⟩, hdenotes⟩
    exact ⟨i, hi, by omega, j, hj, hdenotes⟩
  · rintro ⟨i, hi, hw, j, hj, hdenotes⟩
    exact ⟨by omega, j, ⟨i, hi, hj⟩, hdenotes⟩

/-! ### Expressions -/

/-- A text of five words: four fields that are valid alone, with their values, and a field
    of classic weekdays. -/
structure ClassicExpression (text : String) where
  minute : String
  hour : String
  day : String
  month : String
  items : List ClassicItem
  minutes : List Nat
  hours : List Nat
  days : List Nat
  months : List Nat
  words : Text.words text = [minute, hour, day, month, String.ofList (fieldText items)]
  readMinute : readValues .minute minute.toList = .ok (minutes, [])
  readHour : readValues .hour hour.toList = .ok (hours, [])
  readDay : readValues .dayOfMonth day.toList = .ok (days, [])
  readMonth : readValues .month month.toList = .ok (months, [])

namespace ClassicExpression

variable {text : String} (c : ClassicExpression text)

/-- The first four fields list the values of a reading at the start of a minute. -/
structure Fits (r : Reading) : Prop where
  second : (r.second : Nat) = 0
  minute : (r.minute : Nat) ∈ c.minutes
  hour : (r.hour : Nat) ∈ c.hours
  day : r.date.day ∈ c.days
  month : r.date.month ∈ c.months
  year : 1970 ≤ r.date.year ∧ r.date.year ≤ 2100

/-- The pattern of the expression, with the given weekdays. -/
def pattern (weekdays : List Nat) : Pattern :=
  ⟨[0], c.minutes, c.hours, c.days, c.months, weekdays, interval Unit.year.lo Unit.year.hi⟩

/-- No white space stands in a word. -/
theorem noGap_of_mem {w : String} (h : w ∈ Text.words text) : NoGap w.toList := by
  intro d hd
  have hspace := (Text.of_mem_words h).2 d hd
  refine Bool.eq_false_iff.2 fun hgap => ?_
  simp only [isGap, Bool.or_eq_true, decide_eq_true_eq] at hgap
  -- The white space of the grammar is white space of the text.
  rcases hgap with ((rfl | rfl) | rfl) | rfl <;> cases hspace

/-- There are items, as the fifth word is not empty. -/
theorem items_ne_nil : c.items ≠ [] := by
  intro hnil
  have hmem : String.ofList (fieldText c.items) ∈ Text.words text := by simp [c.words]
  have hne := (Text.of_mem_words hmem).1
  rw [String.toList_ofList, hnil] at hne
  exact hne rfl

/-- The text that the grammar reads is read as the pattern of the expression. -/
theorem ofChars_eq_ok {weekday : List Char} {weekdays : List Nat}
    (hspelled : FieldSpelled .weekday weekday (c.items.flatMap ClassicItem.toItems))
    (hvalues : fieldValues .weekday (c.items.flatMap ClassicItem.toItems) = .ok weekdays) :
    Pattern.ofChars ([' '].intercalate [['0'], c.minute.toList, c.hour.toList, c.day.toList,
      c.month.toList, weekday]) = .ok (c.pattern weekdays) := by
  -- Words have no white space in them.
  have hgap {w : String} (h : w ∈ [c.minute, c.hour, c.day, c.month,
      String.ofList (fieldText c.items)]) : NoGap w.toList := noGap_of_mem (c.words ▸ h)
  have hminute := hgap (w := c.minute) (by simp)
  have hhour := hgap (w := c.hour) (by simp)
  have hday := hgap (w := c.day) (by simp)
  have hmonth := hgap (w := c.month) (by simp)
  -- The weekdays are the last field, so nothing stands behind them.
  have hweekday := hspelled.readValues_eq hvalues EndsField.nil
  rw [List.append_nil] at hweekday
  -- A field that is valid alone starts with a character that ends the field in front of it.
  have hstarts {u : Unit} {cs : List Char} {vs : List Nat} (hcs : NoGap cs)
      (h : readValues u cs = .ok (vs, [])) (r : List Char) : Starts (cs ++ r) := by
    obtain ⟨is, his, -⟩ := spelled_of_readValues hcs h
    exact his.starts.append r
  have hzero : NoGap ['0'] := by simp [NoGap, isGap]
  have hlast : [' '].intercalate [weekday] = weekday := by simp [List.intercalate]
  simp only [intercalate_cons_cons, hlast]
  rw [Pattern.ofChars_eq_ok_iff]
  -- Each field is read in front of the next, from the zero for the seconds on.
  exact ⟨_, _, _, _, _, _, readValues_append hzero rfl (hstarts hminute c.readMinute _),
    readValues_append hminute c.readMinute (hstarts hhour c.readHour _),
    readValues_append hhour c.readHour (hstarts hday c.readDay _),
    readValues_append hday c.readDay (hstarts hmonth c.readMonth _),
    readValues_append hmonth c.readMonth hspelled.starts, hweekday, .inr ⟨rfl, rfl⟩⟩

/-- The expression is accepted, with the weekdays that its items mean and those that come
    with them. -/
theorem parse_eq_ok : ∃ weekdays, Schedule.parse text = .ok ⟨Text.trim text, c.pattern weekdays⟩ ∧
    (c.pattern weekdays).WellFormed ∧
    ∀ w, w + 1 ∈ weekdays ↔ ∃ i ∈ c.items, i.Means w ∨ i.Spills w := by
  obtain ⟨weekdays, hvalues, hmem⟩ := exists_weekdays c.items
  obtain ⟨cs, hshift, hspelled⟩ := shiftWeekdays_fieldText c.items_ne_nil
  have hpattern := c.ofChars_eq_ok hspelled hvalues
  -- The text is not blank, as it has words.
  have hnonempty : ¬ (Text.trim text).isEmpty = true := by
    intro hempty
    have hwords := Text.words_trim text
    rw [String.isEmpty_iff.1 hempty, c.words] at hwords
    cases hwords
  -- It has five words, so a zero is put in front and the weekdays are rewritten.
  have hnormalize : Schedule.normalize (Text.trim text) = .ok ([' '].intercalate [['0'],
      c.minute.toList, c.hour.toList, c.day.toList, c.month.toList, cs]) := by
    rw [Schedule.normalize, Text.words_trim, c.words]
    dsimp only
    rw [String.toList_ofList, hshift]
  refine ⟨weekdays, ?_, Pattern.wellFormed_of_ofChars hpattern, hmem⟩
  rw [Schedule.parse, if_neg hnonempty, hnormalize, ok_bind, hpattern]
  rfl

/-- The expression is accepted and fires on the weekdays that its items mean and on those
    that come with them.  They are the weekdays that the items mean exactly when every other
    one is meant by some item. -/
theorem weekdays_exact_iff : ∃ s, Schedule.parse text = .ok s ∧
    (∀ r : Reading, s.pattern.Fires r.instant ↔ c.Fits r ∧
      ∃ i ∈ c.items, i.Means (r.date.weekday - 1) ∨ i.Spills (r.date.weekday - 1)) ∧
    ((∀ w, w + 1 ∈ s.pattern.weekdays ↔ ∃ i ∈ c.items, i.Means w) ↔
      ∀ i ∈ c.items, ∀ w, i.Spills w → ∃ j ∈ c.items, j.Means w) := by
  obtain ⟨weekdays, hparse, hp, hmem⟩ := c.parse_eq_ok
  refine ⟨_, hparse, fun r => ?_, ?_⟩
  -- Of the pattern the seconds are 0 and the years are all.
  · rw [Pattern.fires_instant_iff hp, ← hmem]
    constructor
    · intro h
      exact ⟨⟨List.mem_singleton.1 h.second, h.minute, h.hour, h.day, h.month,
        mem_interval.1 h.year⟩, h.weekday⟩
    · rintro ⟨hfits, hweekday⟩
      exact ⟨List.mem_singleton.2 hfits.second, hfits.minute, hfits.hour, hfits.day, hfits.month,
        hweekday, mem_interval.2 hfits.year⟩
  · simp only [pattern, hmem]
    constructor
    -- If the weekdays are just those that are meant, a day that comes with an item is meant as
    -- well.
    · intro hexact i hi w hw
      exact (hexact w).1 ⟨i, hi, .inr hw⟩
    -- If all days that come with items are meant, nothing is listed beyond that.
    · intro hcovered w
      constructor
      · rintro ⟨i, hi, hw | hw⟩
        · exact ⟨i, hi, hw⟩
        · exact hcovered i hi w hw
      · rintro ⟨i, hi, hw⟩
        exact ⟨i, hi, .inl hw⟩

/-- Friday to Sunday, and Tuesday by name. -/
private def friToSun : ClassicExpression "0 9 * * 5-7,TUE" where
  minute := "0"
  hour := "9"
  day := "*"
  month := "*"
  items := [.range 5 7 (by decide) none, .name "TUE" 2 (by decide +kernel)]
  minutes := [0]
  hours := [9]
  days := interval 1 31
  months := interval 1 12
  words := by decide
  readMinute := toOption_eq_some.1 (by decide)
  readHour := toOption_eq_some.1 (by decide)
  readDay := toOption_eq_some.1 (by decide)
  readMonth := toOption_eq_some.1 (by decide)

/-- The Sunday that comes with the range is in the range. -/
theorem weekdays_exact_friToSun : ∃ s, Schedule.parse "0 9 * * 5-7,TUE" = .ok s ∧
    ∀ w, w + 1 ∈ s.pattern.weekdays ↔ ∃ i ∈ friToSun.items, i.Means w := by
  obtain ⟨s, hparse, -, hexact⟩ := friToSun.weekdays_exact_iff
  refine ⟨s, hparse, hexact.2 fun i hi w hw => ?_⟩
  have hrange : ClassicItem.range 5 7 (by decide) none ∈ friToSun.items := List.mem_cons_self
  -- The day that comes with the range is Sunday, and 7 is in the range.
  rcases List.mem_cons.1 hi with rfl | hi
  · obtain ⟨-, ⟨-, -, rfl⟩ | ⟨h, -⟩⟩ := hw
    · exact ⟨_, hrange, 7, by decide, by decide, Nat.one_dvd _, rfl⟩
    · exact absurd h (by decide)
  -- A name brings no other day.
  · obtain rfl := List.mem_singleton.1 hi
    exact hw.elim

/-- Friday, and three days on there is none up to Sunday. -/
private def thirdDays : ClassicExpression "0 0 * * 5-7/3" where
  minute := "0"
  hour := "0"
  day := "*"
  month := "*"
  items := [.range 5 7 (by decide) (some ⟨3, by decide, by decide⟩)]
  minutes := [0]
  hours := [0]
  days := interval 1 31
  months := interval 1 12
  words := by decide
  readMinute := toOption_eq_some.1 (by decide)
  readHour := toOption_eq_some.1 (by decide)
  readDay := toOption_eq_some.1 (by decide)
  readMonth := toOption_eq_some.1 (by decide)

/-- The Sunday of the 8th of March 2026 follows the Friday, though no item means Sundays. -/
theorem sunday_of_thirdDays : ∃ s, Schedule.parse "0 0 * * 5-7/3" = .ok s ∧
    s.nextAfter (.ofSecond 1772755200) = some (.ofSecond 1772928000) ∧
    0 + 1 ∈ s.pattern.weekdays ∧ ¬ ∃ i ∈ thirdDays.items, i.Means 0 := by
  refine ⟨⟨"0 0 * * 5-7/3", [0], [0], [0], interval 1 31, interval 1 12, [1, 6],
    interval 1970 2100⟩, toOption_eq_some.1 (by decide +kernel), by decide +kernel, by decide, ?_⟩
  -- Only the range could mean Sundays.
  rintro ⟨i, hi, hmeans⟩
  obtain rfl := List.mem_singleton.1 hi
  obtain ⟨d, hle, hle', hdvd, hzero⟩ := hmeans
  -- The only day that is 0 modulo 7 is 7, which is two days behind Friday.
  obtain rfl : d = 7 := by omega
  exact absurd hdvd (by decide)

/-- A range from Sunday to Sunday is the whole week. -/
example : (Schedule.parse "0 0 * * 7-7").toOption.map (·.pattern.weekdays)
    = some [1, 2, 3, 4, 5, 6, 7] := by
  decide +kernel

end ClassicExpression

end FlowCadence.Cron
