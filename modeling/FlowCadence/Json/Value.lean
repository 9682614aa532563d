/-! # JSON values and their text

The values of RFC 8259 as far as a reader of this library looks at them.
Members keep their order and may repeat.  A number is kept as it is written, as
digits and a power of ten.

The compact text of a value has no white space, its members stand in the order they are kept,
and in strings there is an escape only where one is needed.  A text that holds a lone surrogate
is written as one. -/

namespace FlowCadence

/-- A number `± digits · 10 ^ exponent`. -/
structure Json.Number where
  negative : Bool
  digits : Nat
  exponent : Int
  deriving DecidableEq, Repr

/-- A text, or none where an escape leaves a surrogate without its partner: such
    a text is good JSON but holds something that is not a character. -/
abbrev Json.Str := Option String

/-- A JSON value. -/
inductive Json where
  | null
  | bool (b : Bool)
  | number (n : Json.Number)
  | string (t : Json.Str)
  | array (items : List Json)
  | object (members : List (Json.Str × Json))
  deriving Repr

namespace Json

/-- The number of decimal digits of a natural number. -/
def decimalLength (n : Nat) : Nat := (Nat.toDigits 10 n).length

/-- The least magnitude that no double is near: half a step above the largest
    finite double. -/
def doubleLimit : Nat := Nat.pow 2 1024 - Nat.pow 2 970

/-- Whether the number rounds to a finite double. -/
def Number.fitsDouble (n : Number) : Bool :=
  let top := decimalLength n.digits + n.exponent
  if n.digits = 0 || decide (top ≤ 308) then true
  else if 310 < top then false
  else if 0 ≤ n.exponent then decide (n.digits * Nat.pow 10 n.exponent.toNat < doubleLimit)
  else decide (n.digits < doubleLimit * Nat.pow 10 (-n.exponent).toNat)

mutual

/-- Whether a value nests at most `d` arrays and objects, holds only texts of
    characters, and only numbers that round to a finite double. -/
def plainWithin (d : Nat) : Json → Bool
  | .null | .bool _ => true
  | .number n => n.fitsDouble
  | .string t => t.isSome
  | .array items => match d with
    | 0 => false
    | d + 1 => itemsPlainWithin d items
  | .object members => match d with
    | 0 => false
    | d + 1 => membersPlainWithin d members

/-- Whether each item is plain within `d` levels. -/
def itemsPlainWithin (d : Nat) : List Json → Bool
  | [] => true
  | j :: js => plainWithin d j && itemsPlainWithin d js

/-- Whether each member is plain within `d` levels, its name included. -/
def membersPlainWithin (d : Nat) : List (Json.Str × Json) → Bool
  | [] => true
  | (k, j) :: ms => k.isSome && plainWithin d j && membersPlainWithin d ms

end

end Json

end FlowCadence

/-! ## The compact text -/

namespace FlowCadence.Json

/-- A character inside a string: quotation marks, backslashes and the characters
    below the blank are escaped, all others stand for themselves. -/
def escape (c : Char) : List Char :=
  if c = '"' then ['\\', '"']
  else if c = '\\' then ['\\', '\\']
  else if c = '\x08' then ['\\', 'b']
  else if c = '\x0c' then ['\\', 'f']
  else if c = '\n' then ['\\', 'n']
  else if c = '\r' then ['\\', 'r']
  else if c = '\t' then ['\\', 't']
  else if c.toNat < 0x20 then
    ['\\', 'u', '0', '0', (c.toNat / 16).digitChar, (c.toNat % 16).digitChar]
  else [c]

/-- A string with its quotation marks. -/
def printText : Str → List Char
  | some s => '"' :: s.toList.flatMap escape ++ ['"']
  | none => '"' :: "\\ud800".toList ++ ['"']

/-- A number as digits and, if it has one, a power of ten. -/
def printNumber (n : Number) : List Char :=
  (if n.negative then ['-'] else []) ++ Nat.toDigits 10 n.digits ++
    match n.exponent with
    | .ofNat 0 => []
    | .ofNat e => 'e' :: Nat.toDigits 10 e
    | .negSucc e => 'e' :: '-' :: Nat.toDigits 10 (e + 1)

mutual

/-- The characters of a value. -/
def printChars : Json → List Char
  | .null => "null".toList
  | .bool true => "true".toList
  | .bool false => "false".toList
  | .number n => printNumber n
  | .string t => printText t
  | .array items => '[' :: printItems items ++ [']']
  | .object members => '\x7b' :: printMembers members ++ ['\x7d']

/-- The items with commas between them. -/
def printItems : List Json → List Char
  | [] => []
  | [j] => printChars j
  | j :: js => printChars j ++ ',' :: printItems js

/-- The members with commas between them. -/
def printMembers : List (Str × Json) → List Char
  | [] => []
  | [(k, j)] => printText k ++ ':' :: printChars j
  | (k, j) :: ms => printText k ++ ':' :: (printChars j ++ ',' :: printMembers ms)

end

/-- The compact text of a value. -/
def print (j : Json) : String := String.ofList (printChars j)

end FlowCadence.Json
