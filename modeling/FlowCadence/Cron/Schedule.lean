import FlowCadence.Calendar.Instant
import FlowCadence.Cron.Grammar
import FlowCadence.Fault
import FlowCadence.Text.Split
/-! # Schedules

A schedule is an expression together with the pattern it stands for.  An
expression of five words is the classic form, without seconds and with classic
weekdays; one of six or seven words starts with the seconds.

The days of the week are numbered 0 to 7 in the classic form, and Sunday is both 0 and 7.  A
classic weekday field is rewritten to the numbering 1 to 7 from Sunday; a range that ends on
Sunday and does not start on it is split, since Sunday comes first there.

A pattern matches the instants at which a second begins whose second, minute,
hour, day of the month, month, weekday and year it all lists.  The next fire
time after an instant is the first of them that comes later.  It is searched day
by day up to the end of the last year that a pattern can list. -/

/-! ## Classic weekdays -/

namespace FlowCadence.Cron

/-- A number in the classic numbering, moved to the other one: 0 and 7 become 1.  A
    text that is not a number is left as it is; the error is a number past 7. -/
def shiftWeekday (token : List Char) : Except String (List Char) :=
  if token.isEmpty || !token.all Char.isDigit then .ok token
  else
    let n := Nat.ofDigitChars 10 token 0
    if n ≤ 6 then .ok (Nat.toDigits 10 (n + 1))
    else if n = 7 then .ok ['1']
    else .error (String.ofList token)

/-- One item of a classic weekday field as items of the other numbering. -/
def shiftWeekdayItem (item : List Char) : Except String (List (List Char)) := do
  let (base, step) := match Text.cut '/' item with
    | some (base, step) => (base, '/' :: step)
    | none => (item, [])
  match Text.cut '-' base with
  | some (start, stop) =>
    let start ← shiftWeekday start
    if stop = ['7'] then
      if start = ['1'] then return ["1-7".toList ++ step]
      else return [start ++ "-7".toList ++ step, ['1']]
    else
      let stop ← shiftWeekday stop
      return [start ++ '-' :: stop ++ step]
  | none =>
    let day ← shiftWeekday base
    return [day ++ step]

/-- A classic weekday field in the other numbering; the error is a number past 7. -/
def shiftWeekdays (field : List Char) : Except String (List Char) := do
  let items ← (Text.splitOn (· = ',') field).mapM shiftWeekdayItem
  return [','].intercalate items.flatten

/-! ## Expressions -/

/-- A cron expression and the pattern it stands for. -/
structure Schedule where
  /-- The expression as it was given, without white space around it. -/
  expression : String
  pattern : Pattern
  deriving DecidableEq, Repr

/-- Why an expression is refused. -/
inductive Refusal where
  | empty
  /-- The expression has too few or too many words. -/
  | wordCount (expression : String) (count : Nat)
  /-- A classic weekday is past 7. -/
  | weekday (token : String)
  /-- The fields are wrong. -/
  | fields (expression : String) (reason : Reason)
  deriving DecidableEq, Repr

/-- The fault that a refusal is reported as; the reason stands on a line of its own. -/
def Refusal.fault : Refusal → Fault
  | .empty => .validation "cron expression must not be empty"
  | .wordCount e n => .validation
      ("cron expression '" ++ e ++ "' has " ++ toString n ++ " fields, expected 5, 6 or 7")
  | .weekday t => .validation ("day of week '" ++ t ++ "' is out of range, expected 0-7")
  | .fields e r => .validation ("invalid cron expression '" ++ e ++ "': \n" ++ r.message)

namespace Schedule

/-- The text that the grammar reads for a trimmed expression: five words get a
    zero in front for the seconds, six or seven are taken as they are. -/
def normalize (expression : String) : Except Refusal (List Char) :=
  match Text.words expression with
  | [minute, hour, day, month, weekday] =>
    match shiftWeekdays weekday.toList with
    | .ok weekday => .ok ([' '].intercalate
        [['0'], minute.toList, hour.toList, day.toList, month.toList, weekday])
    | .error token => .error (.weekday token)
  | words =>
    if words.length = 6 || words.length = 7 then .ok expression.toList
    else .error (.wordCount expression words.length)

/-- The schedule that a text writes. -/
def parse (text : String) : Except Refusal Schedule :=
  let expression := Text.trim text
  if expression.isEmpty then .error .empty
  else do
    let cs ← normalize expression
    match Pattern.ofChars cs with
    | .ok pattern => return ⟨expression, pattern⟩
    | .error reason => .error (.fields expression reason)

end Schedule

/-! ## Fire times -/

namespace Pattern

/-- Whether a pattern matches on the day with this number. -/
def matchesDay (p : Pattern) (n : Nat) : Bool :=
  let d := Date.ofDayNumber n
  p.years.contains d.year && p.months.contains d.month && p.daysOfMonth.contains d.day &&
    p.weekdays.contains (weekdayOf n)

/-- Whether a pattern matches at this second of a day. -/
def matchesTime (p : Pattern) (t : Nat) : Bool :=
  p.hours.contains (t / 3600) && p.minutes.contains (t / 60 % 60) && p.seconds.contains (t % 60)

/-- Whether a pattern matches when this second begins, counted from 1970. -/
def matchesSecond (p : Pattern) (s : Nat) : Bool :=
  p.matchesDay (s / 86400) && p.matchesTime (s % 86400)

/-- The first match within a day at or after the second `start`. -/
def firstTime (p : Pattern) (start : Nat) : Option Nat :=
  p.hours.findSome? fun h =>
    if h * 3600 + 3599 < start then none
    else p.minutes.findSome? fun m =>
      if h * 3600 + m * 60 + 59 < start then none
      else p.seconds.findSome? fun s =>
        if h * 3600 + m * 60 + s < start then none else some (h * 3600 + m * 60 + s)

/-- The first match at or after the second `start` of day `n`, within `days` days. -/
def firstFrom (p : Pattern) : (days n start : Nat) → Option Nat
  | 0, _, _ => none
  | days + 1, n, start =>
    match (if p.matchesDay n then p.firstTime start else none) with
    | some t => some (n * 86400 + t)
    | none => firstFrom p days (n + 1) 0

end Pattern

/-- The number of the day after the last one that a pattern can match. -/
def endDay : Nat := Date.daysBeforeYear (Unit.year.hi + 1) - Date.daysBeforeYear 1970

namespace Schedule

/-- The first fire time after an instant, or none when there is none left. -/
def nextAfter (s : Schedule) (t : Instant) : Option Instant :=
  let start := (t.second + 1).toNat
  (s.pattern.firstFrom (endDay - start / 86400) (start / 86400) (start % 86400)).map
    fun n => .ofSecond n

/-- Fire times from an instant on, each the next after the one before; none at the
    end when no further one is left. -/
def fireTimes (s : Schedule) : (count : Nat) → Instant → List (Option Instant)
  | 0, _ => []
  | count + 1, t =>
    match s.nextAfter t with
    | some u => some u :: fireTimes s count u
    | none => [none]

end Schedule

end FlowCadence.Cron
