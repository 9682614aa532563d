import FlowCadence.Calendar.Date
/-! # Dates and their numbers

From 1970 on every day number is that of one date of the calendar.  Counting years and
months off a number stops in the year and in the month that the day lies in, and counting
the days of a date off again leads back to the date.

## Key results

* `Date.isValid_ofDayNumber`, `Date.dayNumber_ofDayNumber`: a day number has a date
* `Date.ofDayNumber_eq`: and no other date has it -/

namespace FlowCadence

/-- The number of days of a month. -/
def daysInMonth (y m : Nat) : Nat := (monthLengths y)[m - 1]?.getD 0

/-- A year has twelve months. -/
theorem length_monthLengths (y : Nat) : (monthLengths y).length = 12 := rfl

namespace Date

/-- A date that the calendar has. -/
structure IsValid (d : Date) : Prop where
  month : 1 ≤ d.month ∧ d.month ≤ 12
  day : 1 ≤ d.day ∧ d.day ≤ daysInMonth d.year d.month

instance (d : Date) : Decidable d.IsValid :=
  decidable_of_iff ((1 ≤ d.month ∧ d.month ≤ 12) ∧ 1 ≤ d.day ∧ d.day ≤ daysInMonth d.year d.month)
    ⟨fun h => ⟨h.1, h.2⟩, fun h => ⟨h.month, h.day⟩⟩

/-! ### Years -/

/-- Later years have more days before them. -/
theorem daysBeforeYear_mono {y y' : Nat} (h : y ≤ y') : daysBeforeYear y ≤ daysBeforeYear y' := by
  induction h with
  | refl => exact Nat.le_refl _
  | step _ ih => exact Nat.le_trans ih (by rw [daysBeforeYear_succ]; omega)

/-- Counting years stops in the year that the day lies in. -/
theorem countYears_spec (y n : Nat) :
    y ≤ (countYears y n).1 ∧ (countYears y n).2 < daysInYear (countYears y n).1 ∧
      daysBeforeYear (countYears y n).1 + (countYears y n).2 = daysBeforeYear y + n := by
  fun_induction countYears y n with
  -- The day lies in this year.
  | case1 y n h => exact ⟨Nat.le_refl y, h, rfl⟩
  -- It lies in a later one, and the days of this one are counted off.
  | case2 y n h ih =>
    obtain ⟨hle, hlt, heq⟩ := ih
    rw [daysBeforeYear_succ] at heq
    exact ⟨by omega, hlt, by omega⟩

/-- Counting the days before a year off leads to that year. -/
theorem countYears_eq {y y' r : Nat} (hy : y ≤ y') (hr : r < daysInYear y') :
    countYears y (daysBeforeYear y' - daysBeforeYear y + r) = (y', r) := by
  obtain ⟨k, rfl⟩ := Nat.le.dest hy
  -- There are `k` years to count off, and every round counts off the first of them.
  induction k generalizing y with
  | zero => rw [Nat.add_zero] at hr ⊢; rw [countYears, Nat.sub_self, Nat.zero_add, if_pos hr]
  | succ k ih =>
    have hnext := daysBeforeYear_succ y
    have hle : daysBeforeYear (y + 1) ≤ daysBeforeYear (y + (k + 1)) :=
      daysBeforeYear_mono (by omega)
    have hrest : daysBeforeYear (y + (k + 1)) - daysBeforeYear y + r - daysInYear y
        = daysBeforeYear (y + 1 + k) - daysBeforeYear (y + 1) + r := by
      rw [show y + 1 + k = y + (k + 1) by omega]
      omega
    rw [countYears, if_neg (by omega), hrest]
    rw [show y + (k + 1) = y + 1 + k by omega] at hr ⊢
    exact ih (by omega) hr

/-! ### Months -/

/-- The months make up the year. -/
theorem daysOfMonths_monthLengths (y : Nat) : daysOfMonths 12 (monthLengths y) = daysInYear y := by
  unfold monthLengths daysInYear
  split <;> rfl

/-- Counting months stops in the month that the day lies in. -/
theorem countMonths_spec (m n : Nat) (ls : List Nat) (h : n < daysOfMonths ls.length ls) :
    ∃ i l, (countMonths m n ls).1 = m + i ∧ ls[i]? = some l ∧ (countMonths m n ls).2 < l ∧
      daysOfMonths i ls + (countMonths m n ls).2 = n := by
  induction ls generalizing m n with
  | nil => exact absurd h (Nat.not_lt_zero n)
  | cons l ls ih =>
    rw [countMonths]
    split
    -- The day lies in this month.
    · next hlt => exact ⟨0, l, rfl, rfl, hlt, by simp [daysOfMonths]⟩
    -- It lies in a later one.
    · next hge =>
      rw [List.length_cons, daysOfMonths] at h
      obtain ⟨i, l', hm, hl, hlt, heq⟩ := ih (m + 1) (n - l) (by omega)
      refine ⟨i + 1, l', by omega, hl, hlt, ?_⟩
      rw [daysOfMonths]
      omega

/-- Counting the days before a month off leads to that month. -/
theorem countMonths_eq {m i l r : Nat} {ls : List Nat} (hl : ls[i]? = some l) (hr : r < l) :
    countMonths m (daysOfMonths i ls + r) ls = (m + i, r) := by
  induction ls generalizing m i with
  | nil => simp at hl
  | cons l' ls ih =>
    cases i with
    | zero =>
      cases hl
      simp [countMonths, daysOfMonths, hr]
    | succ i =>
      rw [countMonths, daysOfMonths, if_neg (by omega),
        show l' + daysOfMonths i ls + r - l' = daysOfMonths i ls + r by omega]
      exact (ih hl).trans (by rw [show m + 1 + i = m + (i + 1) by omega])

/-- The days before a month and those of the month are days of the year. -/
theorem daysOfMonths_add_le {i l : Nat} {ls : List Nat} (hl : ls[i]? = some l) :
    daysOfMonths i ls + l ≤ daysOfMonths ls.length ls := by
  induction ls generalizing i with
  | nil => simp at hl
  | cons l' ls ih =>
    cases i with
    | zero =>
      cases hl
      rw [List.length_cons]
      simp [daysOfMonths]
    | succ i =>
      have := ih hl
      rw [List.length_cons, daysOfMonths, daysOfMonths]
      omega

/-! ### Day numbers -/

/-- The year, and the days since the start of the year and of the month. -/
theorem ofDayNumber_spec (n : Nat) : ∃ r i l, (ofDayNumber n).day = r + 1 ∧
    (ofDayNumber n).month = i + 1 ∧ (monthLengths (ofDayNumber n).year)[i]? = some l ∧ r < l ∧
    1970 ≤ (ofDayNumber n).year ∧
    daysBeforeYear (ofDayNumber n).year + (daysOfMonths i (monthLengths (ofDayNumber n).year) + r)
      = daysBeforeYear 1970 + n := by
  obtain ⟨hle, hlt, hyear⟩ := countYears_spec 1970 n
  rw [← daysOfMonths_monthLengths] at hlt
  -- The rest of the year is counted off by months.
  obtain ⟨i, l, hm, hl, hr, hmonth⟩ := countMonths_spec 1 _ (monthLengths _) hlt
  -- The day is the `r`-th of the month `i` behind January, both counted from zero.
  refine ⟨_, i, l, rfl, ?_, hl, hr, hle, ?_⟩
  · rw [← Nat.add_comm 1 i, ← hm, ofDayNumber]
  · rw [← hyear]
    exact congrArg _ hmonth

/-- Counting off a day number gives a date of the calendar. -/
theorem isValid_ofDayNumber (n : Nat) : (ofDayNumber n).IsValid := by
  obtain ⟨r, i, l, hday, hmonth, hl, hr, -, -⟩ := ofDayNumber_spec n
  -- The month is one of the twelve, and its length is the one in the list.
  have hi : i < 12 := (List.getElem?_eq_some_iff.1 hl).1
  have hlen : daysInMonth (ofDayNumber n).year (ofDayNumber n).month = l := by
    rw [daysInMonth, hmonth, Nat.add_sub_cancel, hl]
    rfl
  exact ⟨by omega, by omega⟩

/-- The date has the number that was counted off. -/
theorem dayNumber_ofDayNumber (n : Nat) : (ofDayNumber n).dayNumber = n := by
  obtain ⟨r, i, l, hday, hmonth, hl, hr, -, heq⟩ := ofDayNumber_spec n
  -- The months and days that were counted off are added again.
  rw [dayNumber, hmonth, hday, Nat.add_sub_cancel]
  omega

namespace IsValid

variable {d : Date} (h : d.IsValid)
include h

/-- The length of the month that a date lies in. -/
theorem length_month : (monthLengths d.year)[d.month - 1]? = some (daysInMonth d.year d.month) := by
  have hlt : d.month - 1 < (monthLengths d.year).length := by
    have := h.month
    rw [length_monthLengths]
    omega
  rw [daysInMonth, List.getElem?_eq_getElem hlt]
  rfl

/-- A date lies before the start of the next year. -/
theorem dayNumber_lt {y : Nat} (hy : d.year ≤ y) :
    d.dayNumber < daysBeforeYear (y + 1) - daysBeforeYear 1970 := by
  -- Its months are those of its year, and its year is not after `y`.
  have hyears := daysBeforeYear_mono (Nat.add_le_add_right hy 1)
  have hmonths := daysOfMonths_add_le h.length_month
  have := h.day
  rw [length_monthLengths, daysOfMonths_monthLengths] at hmonths
  rw [daysBeforeYear_succ] at hyears
  rw [dayNumber]
  omega

/-- The dates that are not before the first day are those from 1970 on. -/
theorem dayNumber_nonneg_iff : 0 ≤ d.dayNumber ↔ 1970 ≤ d.year := by
  constructor
  · intro hnonneg
    -- A date of an earlier year would lie before the end of 1969.
    refine Decidable.byContradiction fun hy => ?_
    have hlt : d.dayNumber < daysBeforeYear 1970 - daysBeforeYear 1970 :=
      h.dayNumber_lt (y := 1969) (by omega)
    omega
  · intro hy
    have := daysBeforeYear_mono hy
    have := h.day
    rw [dayNumber]
    omega

/-- The number of a date counts off to the date. -/
theorem ofDayNumber_eq (hy : 1970 ≤ d.year) {n : Nat} (hn : d.dayNumber = n) :
    ofDayNumber n = d := by
  have hyears := daysBeforeYear_mono hy
  have hmonths := daysOfMonths_add_le h.length_month
  have hday := h.day
  have hmonth := h.month
  have hr : d.day - 1 < daysInMonth d.year d.month := by omega
  -- The days since the start of the year.
  let k := daysOfMonths (d.month - 1) (monthLengths d.year) + (d.day - 1)
  rw [length_monthLengths, daysOfMonths_monthLengths] at hmonths
  -- The number is made up of the years, the months and the days of the date.
  have hcount : n = daysBeforeYear d.year - daysBeforeYear 1970 + k := by
    rw [dayNumber] at hn
    omega
  have hk : k < daysInYear d.year := by omega
  rw [ofDayNumber, hcount, countYears_eq hy hk]
  simp only [k]
  -- Counting it off finds the year first, and then the month and the day.
  rw [countMonths_eq h.length_month hr]
  simp only
  rw [Nat.add_sub_cancel' hmonth.1, Nat.sub_add_cancel hday.1]

end IsValid

end Date

end FlowCadence
