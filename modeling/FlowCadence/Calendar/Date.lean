/-! # Dates

The Gregorian calendar, counted in days from the first of January 1970.
`Date.ofDayNumber` counts off whole years and then whole months, and
`Date.dayNumber` is the number of a given date. -/

namespace FlowCadence

/-- Whether a year has a 29th of February. -/
def isLeapYear (y : Nat) : Bool := y % 4 = 0 && (y % 100 != 0 || y % 400 = 0)

/-- The number of days of a year. -/
def daysInYear (y : Nat) : Nat := if isLeapYear y then 366 else 365

/-- The numbers of days of the months of a year. -/
def monthLengths (y : Nat) : List Nat :=
  [31, if isLeapYear y then 29 else 28, 31, 30, 31, 30, 31, 31, 30, 31, 30, 31]

/-- A day of the Gregorian calendar. -/
structure Date where
  year : Nat
  /-- The month, from 1 for January. -/
  month : Nat
  /-- The day of the month, from 1. -/
  day : Nat
  deriving DecidableEq, Repr

namespace Date

/-- The year `n` days past the start of the year `y`, and the days past the start
    of that year. -/
def countYears (y n : Nat) : Nat × Nat :=
  if n < daysInYear y then (y, n) else countYears (y + 1) (n - daysInYear y)
termination_by n
decreasing_by
  have : 365 ≤ daysInYear y := by unfold daysInYear; split <;> omega
  omega

/-- The month `n` days past the start of the month `m`, when the months from `m` on
    have the given lengths, and the days past the start of that month. -/
def countMonths (m n : Nat) : List Nat → Nat × Nat
  | [] => (m, n)
  | l :: ls => if n < l then (m, n) else countMonths (m + 1) (n - l) ls

/-- The date `n` days after the first of January 1970. -/
def ofDayNumber (n : Nat) : Date :=
  let (y, n) := countYears 1970 n
  let (m, n) := countMonths 1 n (monthLengths y)
  ⟨y, m, n + 1⟩

/-- The days from the start of the year 0 to the start of the year `y`. -/
def daysBeforeYear (y : Nat) : Nat := 365 * y + (y + 3) / 4 - (y + 99) / 100 + (y + 399) / 400

/-- The days of the first `m` months among months of the given lengths. -/
def daysOfMonths : (m : Nat) → List Nat → Nat
  | m + 1, l :: ls => l + daysOfMonths m ls
  | _, _ => 0

/-- The number of a date: the days since the first of January 1970, negative before it. -/
def dayNumber (d : Date) : Int :=
  daysBeforeYear d.year + daysOfMonths (d.month - 1) (monthLengths d.year) + d.day - 1
    - daysBeforeYear 1970

end Date

/-- The day of the week of a day number, from 1 for Sunday to 7 for Saturday; the
    first of January 1970 was a Thursday. -/
def weekdayOf (n : Nat) : Nat := (n + 4) % 7 + 1

/-- The days before a year are those before the last one and its own. -/
theorem Date.daysBeforeYear_succ (y : Nat) :
    daysBeforeYear (y + 1) = daysBeforeYear y + daysInYear y := by
  have h4 : (y + 1 + 3) / 4 = (y + 3) / 4 + if y % 4 = 0 then 1 else 0 := by split <;> omega
  have h100 : (y + 1 + 99) / 100 = (y + 99) / 100 + if y % 100 = 0 then 1 else 0 := by
    split <;> omega
  have h400 : (y + 1 + 399) / 400 = (y + 399) / 400 + if y % 400 = 0 then 1 else 0 := by
    split <;> omega
  have hle : (y + 99) / 100 ≤ 365 * y + (y + 3) / 4 := by omega
  have h : y % 400 = 0 → y % 100 = 0 := by omega
  have h' : y % 100 = 0 → y % 4 = 0 := by omega
  simp only [daysBeforeYear, h4, h100, h400]
  generalize (y + 3) / 4 = a at hle ⊢
  generalize (y + 99) / 100 = b at hle ⊢
  generalize (y + 399) / 400 = c
  by_cases h4 : y % 4 = 0 <;> by_cases h100 : y % 100 = 0 <;> by_cases h400 : y % 400 = 0 <;>
    simp_all [daysInYear, isLeapYear] <;> omega

end FlowCadence
