import FlowCadence.Cron.Field
/-! # The grammar of cron expressions

The text of an expression is read from left to right, each part taking as much
as it can and never giving anything back.  White space may surround numbers and
names, so the border between two fields is where the grammar puts it: `**` is two
fields, and `0/ 5` is one.

A reader takes the text and answers what it read together with the text behind. -/

namespace FlowCadence.Cron

/-- The white space that the grammar skips. -/
def isGap (c : Char) : Bool := c = ' ' || c = '\t' || c = '\r' || c = '\n'

/-- The text behind white space. -/
def skipGap (cs : List Char) : List Char := cs.dropWhile isGap

/-- The text behind `c`, if it starts with `c`. -/
def expect (c : Char) : List Char → Option (List Char)
  | d :: cs => if d = c then some cs else none
  | [] => none

/-- A number below 2³², with the white space around it. -/
def readNumber (cs : List Char) : Option (Nat × List Char) :=
  let cs := skipGap cs
  let ds := cs.takeWhile Char.isDigit
  let n := Nat.ofDigitChars 10 ds 0
  if ds.isEmpty || Nat.pow 2 32 ≤ n then none else some (n, skipGap (cs.dropWhile Char.isDigit))

/-- A name of letters, with the white space around it. -/
def readName (cs : List Char) : Option (String × List Char) :=
  let cs := skipGap cs
  let s := cs.takeWhile Char.isAlpha
  if s.isEmpty then none else some (String.ofList s, skipGap (cs.dropWhile Char.isAlpha))

/-- A range of numbers. -/
def readRange (cs : List Char) : Option (Base × List Char) := do
  let (a, cs) ← readNumber cs
  let cs ← expect '-' cs
  let (b, cs) ← readNumber cs
  return (.range a b, cs)

/-- A range of names. -/
def readNames (cs : List Char) : Option (Base × List Char) := do
  let (a, cs) ← readName cs
  let cs ← expect '-' cs
  let (b, cs) ← readName cs
  return (.names a b, cs)

/-- All values: a star, and for some units a question mark. -/
def readAll (u : Unit) : List Char → Option (Base × List Char)
  | c :: cs => if c = '*' || (c = '?' && u.takesQuestionMark) then some (.all, cs) else none
  | [] => none

/-- A base: all values, a range, a single number or a range of names, whichever
    is found first. -/
def readBase (u : Unit) (cs : List Char) : Option (Base × List Char) :=
  readAll u cs <|> readRange cs <|> (readNumber cs).map (fun (a, cs) => (.point a, cs)) <|>
    readNames cs

/-- A base, a stroke and a step. -/
def readEvery (u : Unit) (cs : List Char) : Option (Item × List Char) := do
  let (b, cs) ← readBase u cs
  let cs ← expect '/' cs
  let (step, cs) ← readNumber cs
  return (.every b step, cs)

/-- An item: a base with a step, a base, or a name. -/
def readItem (u : Unit) (cs : List Char) : Option (Item × List Char) :=
  readEvery u cs <|> (readBase u cs).map (fun (b, cs) => (.plain b, cs)) <|>
    (readName cs).map (fun (s, cs) => (.name s, cs))

/-- The items that follow, each behind a comma; a comma without an item is left. -/
def readMoreItems (u : Unit) : Nat → List Char → List Item × List Char
  | 0, cs => ([], cs)
  | fuel + 1, cs =>
    match (expect ',' cs).bind (readItem u) with
    | some (i, rest) =>
      let (is, rest) := readMoreItems u fuel rest
      (i :: is, rest)
    | none => ([], cs)

/-- A field: items with commas between them, and white space around. -/
def readField (u : Unit) (cs : List Char) : Option (List Item × List Char) := do
  let (i, cs) ← readItem u (skipGap cs)
  let (is, cs) := readMoreItems u cs.length cs
  return (i :: is, skipGap cs)

/-- The values of the field at the start of the text, and the text behind it. -/
def readValues (u : Unit) (cs : List Char) : Except Reason (List Nat × List Char) :=
  match readField u cs with
  | none => .error .form
  | some (items, cs) => (fieldValues u items).map fun vs => (vs, cs)

/-- The values that each unit of a matching instant may have. -/
structure Pattern where
  seconds : List Nat
  minutes : List Nat
  hours : List Nat
  daysOfMonth : List Nat
  months : List Nat
  weekdays : List Nat
  years : List Nat
  deriving DecidableEq, Repr

/-- The pattern that a text writes: six fields and possibly one of years.  Each
    field is checked as soon as it has been read, and nothing may follow. -/
def Pattern.ofChars (cs : List Char) : Except Reason Pattern := do
  let (seconds, cs) ← readValues .second cs
  let (minutes, cs) ← readValues .minute cs
  let (hours, cs) ← readValues .hour cs
  let (daysOfMonth, cs) ← readValues .dayOfMonth cs
  let (months, cs) ← readValues .month cs
  let (weekdays, cs) ← readValues .weekday cs
  let (years, cs) := match readValues .year cs with
    | .ok r => r
    | .error _ => (interval Unit.year.lo Unit.year.hi, cs)
  if cs.isEmpty then
    return ⟨seconds, minutes, hours, daysOfMonth, months, weekdays, years⟩
  else .error .form

end FlowCadence.Cron
