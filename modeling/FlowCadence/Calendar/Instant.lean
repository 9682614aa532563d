import FlowCadence.Calendar.Date
import FlowCadence.Text.Split
/-! # Instants

A point in universal time: whole seconds since the start of 1970 and a part of a
second in nanoseconds.  A leap second has no number of its own; it is kept as
the second before it with a part of a full second or more. -/

namespace FlowCadence

/-- A point in universal time. -/
structure Instant where
  /-- Seconds since the start of 1970, negative before it. -/
  second : Int
  /-- The part of the second; a full second or more within a leap second. -/
  nanos : Nat
  deriving DecidableEq, Repr

namespace Instant

/-- The start of a second. -/
def ofSecond (s : Int) : Instant := ⟨s, 0⟩

/-- Whether the first instant comes before the second. -/
def before (a b : Instant) : Prop :=
  a.second < b.second ∨ (a.second = b.second ∧ a.nanos < b.nanos)

/-! ## Text -/

/-- The digits of a number, filled up with zeros to `width`. -/
def padded (width n : Nat) : String :=
  let ds := Nat.toDigits 10 n
  String.ofList (List.replicate (width - ds.length) '0' ++ ds)

/-- The second of an instant as a timestamp; for instants from 1970 on. -/
def text (t : Instant) : String :=
  let s := t.second.toNat
  let d := Date.ofDayNumber (s / 86400)
  let s := s % 86400
  padded 4 d.year ++ "-" ++ padded 2 d.month ++ "-" ++ padded 2 d.day ++ "T" ++
    padded 2 (s / 3600) ++ ":" ++ padded 2 (s / 60 % 60) ++ ":" ++ padded 2 (s % 60) ++ "Z"

/-- The number that digits write, or none when there is another character or none at all. -/
def number? (cs : List Char) : Option Nat :=
  if cs.isEmpty || !cs.all Char.isDigit then none
  else some (Nat.ofDigitChars 10 cs 0)

/-- The numbers between single separators. -/
def numbers? (sep : Char) (cs : List Char) : Option (List Nat) :=
  (Text.splitOn (· = sep) cs).mapM number?

/-- The nanoseconds that a decimal part writes; digits past the ninth are dropped. -/
def nanos? : List Char → Option Nat
  | [] => some 0
  | '.' :: ds => (number? (ds ++ List.replicate 9 '0')).bind fun _ =>
      number? ((ds ++ List.replicate 9 '0').take 9)
  | _ => none

/-- The seconds by which local time is ahead of universal time. -/
def offset? : List Char → Option Int
  | ['Z'] => some 0
  | '+' :: cs => (numbers? ':' cs).bind fun
    | [h, m] => some (h * 3600 + m * 60 : Nat)
    | _ => none
  | '-' :: cs => (numbers? ':' cs).bind fun
    | [h, m] => some (-((h * 3600 + m * 60 : Nat) : Int))
    | _ => none
  | _ => none

/-- The instant that a timestamp `YYYY-MM-DDThh:mm:ss`, an optional decimal part
    and an offset write.  A second numbered 60 is a leap second. -/
def ofText? (s : String) : Option Instant := do
  let cs := s.toList
  let date ← numbers? '-' (cs.take 10)
  let time ← numbers? ':' ((cs.drop 11).take 8)
  let rest := cs.drop 19
  let nanos ← nanos? (rest.takeWhile fun c => c = '.' || c.isDigit)
  let offset ← offset? (rest.dropWhile fun c => c = '.' || c.isDigit)
  match date, time with
  | [y, mo, d], [h, m, s] =>
    let leap := if s = 60 then 1 else 0
    let second := (Date.mk y mo d).dayNumber * 86400 + (h * 3600 + m * 60 + (s - leap) : Nat)
    return ⟨second - offset, nanos + leap * 1000000000⟩
  | _, _ => none

end Instant

end FlowCadence
