import FlowCadence.Text.Split
/-! # Hosts and percent encoding

Inside a URL a byte may be written as a percent sign and two hexadecimal digits.
Which characters have to be written so depends on the part of the URL; those
outside of ASCII and the control characters always are.

A host may be an internet address: of version 4, whose one to four numbers may be decimal, octal
or hexadecimal, or of version 6, whose longest run of zeros is written as two colons. -/

/-! ## Percent encoding -/

namespace FlowCadence.Url

/-- The bytes of a character in UTF-8. -/
def bytesOf (c : Char) : List UInt8 := String.utf8EncodeChar c

/-- A byte as a percent sign and two hexadecimal digits in upper case. -/
def encodeByte (b : UInt8) : List Char :=
  ['%', (b.toNat / 16).digitChar.toUpper, (b.toNat % 16).digitChar.toUpper]

/-- The characters with a control code, and all outside of ASCII. -/
def isControl (c : Char) : Bool := c.toNat < 0x20 || 0x7F ≤ c.toNat

/-- The printable characters that are encoded in a fragment. -/
def fragmentChars : List Char := [' ', '"', '<', '>', '\x60']

/-- The printable characters that are encoded in the query of a web address. -/
def queryChars : List Char := [' ', '"', '#', '<', '>', '\'']

/-- The printable characters that are encoded in a path. -/
def pathChars : List Char := fragmentChars ++ ['#', '?', '^', '\x7b', '\x7d']

/-- The printable characters that are encoded in a user name or password. -/
def userinfoChars : List Char := pathChars ++ ['/', ':', ';', '=', '@', '[', '\\', ']', '|']

/-- The text with the control characters and the listed ones encoded. -/
def encode (chars : List Char) (cs : List Char) : List Char :=
  cs.flatMap fun c =>
    if isControl c || chars.contains c then (bytesOf c).flatMap encodeByte else [c]

/-- The bytes of a text, each encoded byte as the one it stands for. -/
def decode : List Char → List UInt8
  | [] => []
  | '%' :: a :: b :: cs =>
    match Text.hexValue a, Text.hexValue b with
    | some x, some y => UInt8.ofNat (x * 16 + y) :: decode cs
    | _, _ => bytesOf '%' ++ decode (a :: b :: cs)
  | c :: cs => bytesOf c ++ decode cs

/-- The text that bytes are in UTF-8, if they are. -/
def ofBytes? (bs : List UInt8) : Option (List Char) :=
  (String.fromUTF8? ⟨bs.toArray⟩).map String.toList

/-! ## Version 4 -/

/-- A number of an address: none when it is not one.  Hexadecimal behind `0x`, octal
    behind another leading zero, decimal otherwise. -/
def addressNumber? (cs : List Char) : Option Nat :=
  let digits (base : Nat) (ds : List Char) : Option Nat := do
    let vs ← ds.mapM Text.hexValue
    if vs.all (· < base) then return Text.ofDigitValues base vs else none
  match cs with
  | [] => none
  | '0' :: 'x' :: ds | '0' :: 'X' :: ds => digits 16 ds
  | ['0'] => some 0
  | '0' :: ds => digits 8 ds
  | ds => digits 10 ds

/-- The parts of a domain, without an empty one at the end. -/
def domainParts (cs : List Char) : List (List Char) :=
  let parts := Text.splitOn (· = '.') cs
  if 1 < parts.length && parts.getLast? = some [] then parts.dropLast else parts

/-- Whether the last part of a domain is a number, so that it has to be an address. -/
def endsInNumber (cs : List Char) : Bool :=
  match (domainParts cs).getLast? with
  | some part => (!part.isEmpty && part.all Char.isDigit) || (addressNumber? part).isSome
  | none => false

/-- The address of version 4 that a domain writes.  Each number but the last is a
    byte, and the last fills the bytes that are left. -/
def address4? (cs : List Char) : Option Nat := do
  let ns ← (domainParts cs).mapM addressNumber?
  let last ← ns.getLast?
  let front := ns.dropLast
  if 3 < front.length || front.any (255 < ·) || Nat.pow 256 (4 - front.length) ≤ last then none
  else some (front.zipIdx.foldl
    (fun (n : Nat) (p : Nat × Nat) => n + p.1 * Nat.pow 256 (3 - p.2)) last)

/-- Four bytes with points between them. -/
def address4Text (n : Nat) : String :=
  ".".intercalate ([n / 16777216, n / 65536 % 256, n / 256 % 256, n % 256].map toString)

/-! ## Version 6 -/

/-- The bytes of an embedded address of version 4, in decimal without leading zeros. -/
def embedded4? (cs : List Char) : Option (List Nat) := do
  let bytes ← (Text.splitOn (· = '.') cs).mapM fun ds =>
    if ds.isEmpty || !ds.all Char.isDigit || (1 < ds.length && ds.head? = some '0') then none
    else
      let n := Nat.ofDigitChars 10 ds 0
      if n < 256 then some n else none
  match bytes with
  | [a, b, c, d] => some [a * 256 + b, c * 256 + d]
  | _ => none

/-- The pieces between colons; the last may be an address of version 4. -/
def pieces6? : List (List Char) → Option (List Nat)
  | [] => some []
  | [ds] =>
    if ds.contains '.' then embedded4? ds
    else (piece? ds).map ([·])
  | ds :: rest => do
    let p ← piece? ds
    let ps ← pieces6? rest
    return p :: ps
where
  /-- A piece of one to four hexadecimal digits. -/
  piece? (ds : List Char) : Option Nat := do
    let vs ← ds.mapM Text.hexValue
    if 0 < vs.length && vs.length ≤ 4 then return Text.ofDigitValues 16 vs else none

/-- The pieces on one side of two colons. -/
def side6? (cs : List Char) : Option (List Nat) :=
  if cs.isEmpty then some [] else pieces6? (Text.splitOn (· = ':') cs)

/-- The two sides of the first two colons in a row. -/
def cutColons : List Char → Option (List Char × List Char)
  | ':' :: ':' :: cs => some ([], cs)
  | c :: cs => (cutColons cs).map fun (a, b) => (c :: a, b)
  | [] => none

/-- The eight pieces of the address of version 6 that a text writes. -/
def address6? (cs : List Char) : Option (List Nat) :=
  match cutColons cs with
  | none => do
    let ps ← side6? cs
    if ps.length = 8 then return ps else none
  | some (front, back) => do
    if front.contains '.' then none
    let a ← side6? front
    let b ← side6? back
    if a.length + b.length ≤ 7 then
      return a ++ List.replicate (8 - a.length - b.length) 0 ++ b
    else none

/-- The start and the length of the first longest run of zeros, of the runs from
    position `i` on and one that was found before. -/
def longestZeros (i : Nat) (best : Nat × Nat) : List Nat → Nat × Nat
  | [] => best
  | p :: ps =>
    let run := ((p :: ps).takeWhile (· = 0)).length
    longestZeros (i + 1) (if best.2 < run then (i, run) else best) ps

/-- A piece in hexadecimal, in lower case. -/
def pieceText (n : Nat) : String := String.ofList (Nat.toDigits 16 n)

/-- The text of an address of version 6; two or more zeros in a row are left out,
    once, where they are most. -/
def address6Text (ps : List Nat) : String :=
  let join (ps : List Nat) := ":".intercalate (ps.map pieceText)
  let (start, length) := longestZeros 0 (0, 0) ps
  if length < 2 then join ps
  else join (ps.take start) ++ "::" ++ join (ps.drop (start + length))

end FlowCadence.Url
