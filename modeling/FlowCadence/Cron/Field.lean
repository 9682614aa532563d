/-! # The fields of a cron expression

A cron expression has a field for each unit of time.  A field is a list of items,
and an item stands for values within the bounds of its unit: all of them, a
single one, a range, every so many of these, or one that has a name.
`Item.values` says which values, or why there are none. -/

namespace FlowCadence.Cron

/-- The units of time that have a field. -/
inductive Unit where
  | second
  | minute
  | hour
  | dayOfMonth
  | month
  | weekday
  | year
  deriving DecidableEq, Repr

namespace Unit

/-- The name of a unit in a refusal. -/
def title : Unit → String
  | .second => "Seconds"
  | .minute => "Minutes"
  | .hour => "Hours"
  | .dayOfMonth => "Days of Month"
  | .month => "Months"
  | .weekday => "Days of Week"
  | .year => "Years"

/-- The smallest value of a unit. -/
def lo : Unit → Nat
  | .second | .minute | .hour => 0
  | .dayOfMonth | .month | .weekday => 1
  | .year => 1970

/-- The largest value of a unit. -/
def hi : Unit → Nat
  | .second | .minute => 59
  | .hour => 23
  | .dayOfMonth => 31
  | .month => 12
  | .weekday => 7
  | .year => 2100

/-- Whether a question mark stands for all values of the unit. -/
def takesQuestionMark : Unit → Bool
  | .dayOfMonth | .weekday => true
  | _ => false

end Unit

/-- The values from `a` to `b`, in ascending order. -/
def interval (a b : Nat) : List Nat := List.range' a (b + 1 - a)

/-- The first value and every `n`-th after it. -/
def everyNth (n : Nat) (vs : List Nat) : List Nat :=
  match vs with
  | [] => []
  | v :: _ => vs.filter fun w => (w - v) % n = 0

/-- What an item is built on. -/
inductive Base where
  /-- All values. -/
  | all
  /-- The values from the first number to the second. -/
  | range (a b : Nat)
  /-- A single value. -/
  | point (a : Nat)
  /-- The values from the one named first to the one named second. -/
  | names (a b : String)
  deriving DecidableEq, Repr

/-- An item of a field. -/
inductive Item where
  /-- Every so many values of a base; from a single value, up to the largest. -/
  | every (b : Base) (step : Nat)
  /-- The values of a base. -/
  | plain (b : Base)
  /-- The value that has a name. -/
  | name (s : String)
  deriving DecidableEq, Repr

/-- Why an expression is refused once its fields have been read. -/
inductive Reason where
  /-- The text does not have the form of an expression. -/
  | form
  | tooSmall (u : Unit) (v : Nat)
  | tooLarge (u : Unit) (v : Nat)
  | range (u : Unit) (a b : Nat)
  | names (u : Unit) (a b : String)
  | zeroStep
  | step (u : Unit) (s : Nat)
  | noNames (u : Unit) (s : String)
  | unknownMonth (s : String)
  | unknownWeekday (s : String)
  deriving DecidableEq, Repr

/-- The words of a reason; a text of the wrong form has none. -/
def Reason.message : Reason → String
  | .form => ""
  | .tooSmall u v => u.title ++ " must be greater than or equal to " ++ toString u.lo ++
      ". ('" ++ toString v ++ "' specified.)"
  | .tooLarge u v => u.title ++ " must be less than " ++ toString u.hi ++
      ". ('" ++ toString v ++ "' specified.)"
  | .range u a b => "Invalid range for " ++ u.title ++ ": " ++ toString a ++ "-" ++ toString b
  | .names u a b => "Invalid named range for " ++ u.title ++ ": " ++ a ++ "-" ++ b
  | .zeroStep => "range step cannot be zero"
  | .step u s => u.title ++ " must be between 1 and " ++ toString u.hi ++
      ". ('" ++ toString s ++ "' specified.)"
  | .noNames u s => "The '" ++ u.title ++ "' field does not support using names. '" ++ s ++
      "' specified."
  | .unknownMonth s => "'" ++ s ++ "' is not a valid month name."
  | .unknownWeekday s => "'" ++ s ++ "' is not a valid day of the week."

/-- The names of the months, by number. -/
def monthNames : List (Nat × List String) :=
  [(1, ["jan", "january"]), (2, ["feb", "february"]), (3, ["mar", "march"]),
   (4, ["apr", "april"]), (5, ["may"]), (6, ["jun", "june"]), (7, ["jul", "july"]),
   (8, ["aug", "august"]), (9, ["sep", "september"]), (10, ["oct", "october"]),
   (11, ["nov", "november"]), (12, ["dec", "december"])]

/-- The names of the days of the week, by number. -/
def weekdayNames : List (Nat × List String) :=
  [(1, ["sun", "sunday"]), (2, ["mon", "monday"]), (3, ["tue", "tues", "tuesday"]),
   (4, ["wed", "wednesday"]), (5, ["thu", "thurs", "thursday"]), (6, ["fri", "friday"]),
   (7, ["sat", "saturday"])]

/-- The value listed under a name, in either case. -/
def lookUpName (names : List (Nat × List String)) (s : String) : Option Nat :=
  (names.find? fun n => n.2.contains s.toLower).map (·.1)

/-- The value of a unit that has a name. -/
def Unit.ofName (u : Unit) (s : String) : Except Reason Nat :=
  match u with
  | .month => (lookUpName monthNames s).elim (.error (.unknownMonth s)) .ok
  | .weekday => (lookUpName weekdayNames s).elim (.error (.unknownWeekday s)) .ok
  | _ => .error (.noNames u s)

/-- A value within the bounds of its unit. -/
def Unit.check (u : Unit) (v : Nat) : Except Reason Nat :=
  if v < u.lo then .error (.tooSmall u v)
  else if u.hi < v then .error (.tooLarge u v)
  else .ok v

/-- Whether two values are in order within the bounds of their unit. -/
def Unit.ordered (u : Unit) (a b : Nat) : Bool := u.lo ≤ a && a ≤ b && b ≤ u.hi

/-- The values of a base, in ascending order; a single value is taken as it is. -/
def Base.values (u : Unit) : Base → Except Reason (List Nat)
  | .all => .ok (interval u.lo u.hi)
  | .point a => .ok [a]
  | .range a b => if u.ordered a b then .ok (interval a b) else .error (.range u a b)
  | .names s t => do
    let a ← u.ofName s
    let b ← u.ofName t
    if u.ordered a b then return interval a b else .error (.names u s t)

/-- The values of an item within the bounds of its unit, in ascending order. -/
def Item.values (u : Unit) : Item → Except Reason (List Nat)
  | .every b step => do
    if step = 0 then .error .zeroStep
    if u.hi < step then .error (.step u step)
    match b with
    | .point a =>
      let a ← u.check a
      return everyNth step (interval a u.hi)
    | b =>
      let vs ← b.values u
      return everyNth step vs
  | .plain b => do
    let vs ← b.values u
    vs.mapM u.check
  | .name s => do
    let v ← u.ofName s
    return [v]

/-- The values of a field, each once and in ascending order. -/
def fieldValues (u : Unit) (items : List Item) : Except Reason (List Nat) := do
  let vss ← items.mapM (Item.values u)
  return (interval u.lo u.hi).filter fun v => vss.any fun vs => vs.contains v

end FlowCadence.Cron
