import FlowCadence.Json.Value
import FlowCadence.Text.Basic
/-! # Reading JSON

A strict reader of RFC 8259: no raw control characters in strings, no leading
zeros, no trailing commas, nothing but white space around the value.  Nesting
and the size of numbers are not limited here; `Json.plainWithin` says whether a
value stays within limits. -/

namespace FlowCadence.Json

/-- The white space between tokens. -/
def isSpace (c : Char) : Bool := c = ' ' || c = '\t' || c = '\n' || c = '\r'

/-- The input from its first character that is not white space. -/
def skipSpace (cs : List Char) : List Char := cs.dropWhile isSpace

/-! ## Strings -/

/-- A piece of a string: a character, or a code unit written `\u` and four hexadecimal
    digits. -/
inductive Piece where
  | char (c : Char)
  | unit (u : Nat)
  deriving DecidableEq, Repr

/-- The number that four hexadecimal digits write. -/
def hexQuad (a b c d : Char) : Option Nat := do
  let a ← Text.hexValue a
  let b ← Text.hexValue b
  let c ← Text.hexValue c
  let d ← Text.hexValue d
  return ((a * 16 + b) * 16 + c) * 16 + d

/-- The character that a backslash and a single character stand for. -/
def unescape : Char → Option Char
  | '"' => some '"'
  | '\\' => some '\\'
  | '/' => some '/'
  | 'b' => some '\x08'
  | 'f' => some '\x0c'
  | 'n' => some '\n'
  | 'r' => some '\r'
  | 't' => some '\t'
  | _ => none

/-- The pieces of a string up to its closing quotation mark, and the input
    behind that mark. -/
def readPieces : List Char → Option (List Piece × List Char)
  | [] => none
  | '"' :: r => some ([], r)
  | '\\' :: 'u' :: a :: b :: c :: d :: r => do
    let u ← hexQuad a b c d
    let (ps, rest) ← readPieces r
    return (.unit u :: ps, rest)
  | '\\' :: e :: r => do
    let c ← unescape e
    let (ps, rest) ← readPieces r
    return (.char c :: ps, rest)
  | c :: r =>
    if c.toNat < 0x20 then none
    else do
      let (ps, rest) ← readPieces r
      return (.char c :: ps, rest)

/-- The characters that the pieces spell: a high surrogate takes the low one
    behind it, and a surrogate without a partner spells nothing. -/
def spell : List Piece → Option (List Char)
  | [] => some []
  | .char c :: ps => (spell ps).map (c :: ·)
  | .unit u :: ps =>
    if 0xD800 ≤ u ∧ u < 0xDC00 then
      match ps with
      | .unit v :: ps =>
        if 0xDC00 ≤ v ∧ v < 0xE000 then
          (spell ps).map (Char.ofNat (0x10000 + (u - 0xD800) * 0x400 + (v - 0xDC00)) :: ·)
        else none
      | _ => none
    else if 0xDC00 ≤ u ∧ u < 0xE000 then none
    else (spell ps).map (Char.ofNat u :: ·)

/-- A string, from behind its opening quotation mark. -/
def readText (cs : List Char) : Option (Str × List Char) :=
  (readPieces cs).map fun r => ((spell r.1).map String.ofList, r.2)

/-! ## Numbers -/

/-- The digits that the input starts with, at least one. -/
def readDigits (cs : List Char) : Option (List Char × List Char) :=
  match cs.takeWhile Char.isDigit with
  | [] => none
  | ds => some (ds, cs.dropWhile Char.isDigit)

/-- The digits before the point: a single zero, or digits that start with another one. -/
def readWhole : List Char → Option (List Char × List Char)
  | '0' :: r => if (r.head?.any Char.isDigit) then none else some (['0'], r)
  | cs => readDigits cs

/-- The digits behind the point, none without a point. -/
def readFraction : List Char → Option (List Char × List Char)
  | '.' :: r => readDigits r
  | cs => some ([], cs)

/-- The power of ten behind the digits, zero when it is not written. -/
def readExponent : List Char → Option (Int × List Char)
  | c :: r =>
    if c = 'e' || c = 'E' then
      match r with
      | '-' :: r => (readDigits r).map fun (ds, rest) => (-(Nat.ofDigitChars 10 ds 0 : Int), rest)
      | '+' :: r => (readDigits r).map fun (ds, rest) => ((Nat.ofDigitChars 10 ds 0 : Int), rest)
      | r => (readDigits r).map fun (ds, rest) => ((Nat.ofDigitChars 10 ds 0 : Int), rest)
    else some (0, c :: r)
  | [] => some (0, [])

/-- A number without its sign. -/
def readMagnitude (negative : Bool) (cs : List Char) : Option (Number × List Char) := do
  let (whole, cs) ← readWhole cs
  let (fraction, cs) ← readFraction cs
  let (exponent, cs) ← readExponent cs
  return (⟨negative, Nat.ofDigitChars 10 (whole ++ fraction) 0, exponent - fraction.length⟩, cs)

/-- A number. -/
def readNumber : List Char → Option (Number × List Char)
  | '-' :: r => readMagnitude true r
  | cs => readMagnitude false cs

/-! ## Values -/

mutual

/-- A value at the start of the input and the input behind it, within `fuel`
    steps. -/
def readValue : Nat → List Char → Option (Json × List Char)
  | 0, _ => none
  | fuel + 1, cs =>
    match skipSpace cs with
    | 'n' :: 'u' :: 'l' :: 'l' :: r => some (.null, r)
    | 't' :: 'r' :: 'u' :: 'e' :: r => some (.bool true, r)
    | 'f' :: 'a' :: 'l' :: 's' :: 'e' :: r => some (.bool false, r)
    | '"' :: r => (readText r).map fun (t, rest) => (.string t, rest)
    | '[' :: r =>
      match skipSpace r with
      | ']' :: r => some (.array [], r)
      | r => (readItems fuel r).map fun (js, rest) => (.array js, rest)
    | '\x7b' :: r =>
      match skipSpace r with
      | '\x7d' :: r => some (.object [], r)
      | r => (readMembers fuel r).map fun (ms, rest) => (.object ms, rest)
    | r => (readNumber r).map fun (n, rest) => (.number n, rest)

/-- The items of an array, at least one, up to its closing bracket. -/
def readItems : Nat → List Char → Option (List Json × List Char)
  | 0, _ => none
  | fuel + 1, cs =>
    match readValue fuel cs with
    | none => none
    | some (j, r) =>
      match skipSpace r with
      | ',' :: r => (readItems fuel r).map fun (js, rest) => (j :: js, rest)
      | ']' :: r => some ([j], r)
      | _ => none

/-- The members of an object, at least one, up to its closing brace. -/
def readMembers : Nat → List Char → Option (List (Str × Json) × List Char)
  | 0, _ => none
  | fuel + 1, cs =>
    match skipSpace cs with
    | '"' :: r =>
      match readText r with
      | none => none
      | some (k, r) =>
        match skipSpace r with
        | ':' :: r =>
          match readValue fuel r with
          | none => none
          | some (j, r) =>
            match skipSpace r with
            | ',' :: r => (readMembers fuel r).map fun (ms, rest) => ((k, j) :: ms, rest)
            | '\x7d' :: r => some ([(k, j)], r)
            | _ => none
        | _ => none
    | _ => none

end

/-- The value that the characters write.  Each step past an array's or object's
    start takes a character, so twice their number of steps is enough. -/
def readChars (cs : List Char) : Option Json :=
  match readValue (2 * cs.length + 2) cs with
  | some (j, rest) => if (skipSpace rest).isEmpty then some j else none
  | none => none

/-- The value that a text writes, or none when it is not JSON. -/
def read (s : String) : Option Json := readChars s.toList

end FlowCadence.Json
