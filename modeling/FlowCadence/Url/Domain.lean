import FlowCadence.Text.Split
/-! # Domains

A domain is brought to one form before it is used: letters in lower case, full width forms and
the dots of East Asian scripts as their plain ones, invisible characters left out, and labels
outside of ASCII in their ASCII form.

Which characters a domain may hold is a matter of large tables.  Here are those for the common
scripts that are written from left to right in characters of their own; a domain with any other
character, such as a letter of Hebrew or Arabic, a mark that is set upon a letter or a code point
that is not assigned, is not read. -/

/-! ## Punycode

A label of a domain that is not in ASCII is written in ASCII: first its ASCII
characters, then a hyphen, then where the others go, as differences in digits of
base 36 whose weights adapt to the label. -/

namespace FlowCadence.Url.Punycode

/-- The digit of a value below 36: the letters first. -/
def digitChar (d : Nat) : Char :=
  if d < 26 then Char.ofNat ('a'.toNat + d) else Char.ofNat ('0'.toNat + (d - 26))

/-- The value of a digit, of either case. -/
def digitValue (c : Char) : Option Nat :=
  if 'a' ≤ c ∧ c ≤ 'z' then some (c.toNat - 'a'.toNat)
  else if 'A' ≤ c ∧ c ≤ 'Z' then some (c.toNat - 'A'.toNat)
  else if '0' ≤ c ∧ c ≤ '9' then some (c.toNat - '0'.toNat + 26)
  else none

/-- The digit from which on a difference ends, at the position `k`. -/
def threshold (k bias : Nat) : Nat := max 1 (min 26 (k - bias))

/-- A threshold is one at least. -/
theorem threshold_pos (k bias : Nat) : 1 ≤ threshold k bias := by
  unfold threshold; omega

/-- A threshold is twenty-six at most. -/
theorem threshold_le (k bias : Nat) : threshold k bias ≤ 26 := by
  unfold threshold; omega

/-- The bias once a difference has been scaled down to the range of one digit. -/
def settle (delta k : Nat) : Nat :=
  if 455 < delta then settle (delta / 35) (k + 36) else k + 36 * delta / (delta + 38)
termination_by delta
decreasing_by omega

/-- The bias behind a difference, when `count` characters are in place. -/
def adapt (delta count : Nat) (first : Bool) : Nat :=
  let delta := if first then delta / 700 else delta / 2
  settle (delta + delta / count) 0

/-- A difference in digits, from the position `k` on. -/
def digits (bias k q : Nat) : List Char :=
  let t := threshold k bias
  if q < t then [digitChar q]
  else digitChar (t + (q - t) % (36 - t)) :: digits bias (k + 36) ((q - t) / (36 - t))
termination_by q
decreasing_by
  have h1 := threshold_pos k bias
  have h2 := threshold_le k bias
  calc (q - threshold k bias) / (36 - threshold k bias)
      ≤ q - threshold k bias := Nat.div_le_self _ _
    _ < q := by omega

/-- Where an encoder stands: the difference so far, the bias and the number of
    characters in place. -/
structure State where
  delta : Nat
  bias : Nat
  count : Nat

/-- Goes over the label for the character `n`: each one of it is written. -/
def writeChar (n basic : Nat) (s : State) : List Char → State × List Char
  | [] => (s, [])
  | c :: cs =>
    if c.toNat < n then writeChar n basic { s with delta := s.delta + 1 } cs
    else if c.toNat = n then
      let t : State := ⟨0, adapt s.delta (s.count + 1) (s.count = basic), s.count + 1⟩
      let (u, out) := writeChar n basic t cs
      (u, digits s.bias 36 s.delta ++ out)
    else writeChar n basic s cs

/-- Writes the characters of the list, which ascends, from the number `n` on. -/
def writeChars (label : List Char) (basic n : Nat) (s : State) : List Nat → List Char
  | [] => []
  | m :: ms =>
    let s := { s with delta := s.delta + (m - n) * (s.count + 1) }
    let (s, out) := writeChar m basic s label
    out ++ writeChars label basic (m + 1) { s with delta := s.delta + 1 } ms

/-- The ASCII form of a label, without its marker. -/
def encode (label : List Char) : List Char :=
  let basic := label.filter fun c => c.toNat < 0x80
  let others := ((label.filter fun c => 0x80 ≤ c.toNat).map Char.toNat).eraseDups.mergeSort
  basic ++ (if basic.isEmpty then [] else ['-']) ++
    writeChars label basic.length 0x80 ⟨0, 72, basic.length⟩ others

/-- A difference at the start of the input, and the input behind it. -/
def readDelta (bias : Nat) : (k weight sum : Nat) → List Char → Option (Nat × List Char)
  | _, _, _, [] => none
  | k, weight, sum, c :: cs => do
    let d ← digitValue c
    let sum := sum + d * weight
    let t := threshold k bias
    if d < t then return (sum, cs) else readDelta bias (k + 36) (weight * (36 - t)) sum cs

/-- Puts the characters in place that the input's differences name. -/
def readChars : (fuel : Nat) → (out : List Char) → (n i bias : Nat) → (first : Bool) →
    List Char → Option (List Char)
  | _, out, _, _, _, _, [] => some out
  | 0, _, _, _, _, _, _ => none
  | fuel + 1, out, n, i, bias, first, cs => do
    let (delta, cs) ← readDelta bias 36 1 0 cs
    let count := out.length + 1
    let n := n + (i + delta) / count
    let i := (i + delta) % count
    if 0x110000 ≤ n || (0xD800 ≤ n && n < 0xE000) then none
    else
      let out := out.take i ++ Char.ofNat n :: out.drop i
      readChars fuel out n (i + 1) (adapt delta count first) false cs

/-- The label of an ASCII form without its marker. -/
def decode (cs : List Char) : Option (List Char) :=
  let tail := (cs.reverse.takeWhile (· != '-')).reverse
  let (basic, tail) :=
    if tail.length < cs.length then (cs.take (cs.length - tail.length - 1), tail) else ([], cs)
  readChars tail.length basic 0x80 0 72 true tail

end FlowCadence.Url.Punycode

/-! ## Domains -/

namespace FlowCadence.Url.Domain

/-- The characters of ASCII that no domain may hold, besides control characters
    and the blank. -/
def forbiddenChars : List Char := ['%', '#', '/', ':', '<', '>', '?', '@', '[', '\\', ']', '^', '|']

/-- Whether no domain may hold the character. -/
def isForbidden (c : Char) : Bool :=
  c.toNat ≤ 0x20 || c.toNat = 0x7F || forbiddenChars.contains c

/-- The letters and other signs of scripts that domains are read in, as closed ranges in ascending
    order: small Latin, Greek and Cyrillic letters, kana, Chinese characters and Hangul syllables.
    Each of them is one that a domain may hold as it is, wherever it stands. -/
def plainRanges : List (Nat × Nat) :=
  [(0xDF, 0xF6), (0xF8, 0xFF), (0x3AC, 0x3CE), (0x430, 0x45F), (0x3041, 0x3094), (0x30A1, 0x30FA),
   (0x30FC, 0x30FC), (0x4E00, 0x9FA5), (0xAC00, 0xD7A3)]

/-- The ranges of capital letters whose small ones follow at a fixed distance. -/
def shiftedCapitals : List (Nat × Nat × Nat) :=
  [(0xC0, 0xD6, 32), (0xD8, 0xDE, 32), (0x391, 0x3A1, 32), (0x3A3, 0x3AB, 32),
   (0x400, 0x40F, 80), (0x410, 0x42F, 32)]

/-- The ranges in which capital and small letters take turns, the first one capital. -/
def pairedLetters : List (Nat × Nat) :=
  [(0x100, 0x12F), (0x134, 0x137), (0x139, 0x13E), (0x141, 0x148), (0x14A, 0x177), (0x179, 0x17E)]

/-- Characters that are invisible and left out. -/
def ignoredChars : List Nat := [0xAD, 0x200B, 0x2060, 0xFEFF]

/-- The sign that a letter becomes in a domain: a capital its small letter, and a small one
    itself; none where nothing is known of the character. -/
def letter? (n : Nat) : Option Nat :=
  match shiftedCapitals.find? fun (a, b, _) => a ≤ n && n ≤ b with
  | some (_, _, d) => some (n + d)
  | none =>
    match pairedLetters.find? fun (a, b) => a ≤ n && n ≤ b with
    | some (a, _) => some (if (n - a) % 2 = 0 then n + 1 else n)
    | none => if plainRanges.any fun (a, b) => a ≤ n && n ≤ b then some n else none

/-- What a character becomes, or none when it cannot be read. -/
def mapChar (c : Char) : Option (List Char) :=
  let n := c.toNat
  if n < 0x80 then some [c.toLower]
  else if ignoredChars.contains n then some []
  else if n = 0x3002 || n = 0xFF0E || n = 0xFF61 then some ['.']
  else if 0xFF01 ≤ n && n ≤ 0xFF5E then some [(Char.ofNat (n - 0xFEE0)).toLower]
  else (letter? n).map fun m => [Char.ofNat m]

/-- The characters of a domain in their one form. -/
def mapChars (cs : List Char) : Option (List Char) := (cs.mapM mapChar).map List.flatten

/-- What an ASCII form starts with. -/
def marker : List Char := "xn--".toList

/-- The ASCII form of a label, or none when it has none. -/
def labelToAscii (label : List Char) : Option (List Char) :=
  if label.all fun c => c.toNat < 0x80 then
    if marker.isPrefixOf label then do
      let decoded ← Punycode.decode (label.drop 4)
      let valid := decoded.any (fun c => 0x80 ≤ c.toNat) && mapChars decoded = some decoded &&
        Punycode.encode decoded = label.drop 4
      if valid then return label else none
    else some label
  else some (marker ++ Punycode.encode label)

/-- The ASCII form of a domain, or none when it has none. -/
def toAscii (cs : List Char) : Option (List Char) := do
  let cs ← mapChars cs
  if cs.any isForbidden then none
  let labels ← (Text.splitOn (· = '.') cs).mapM labelToAscii
  return ['.'].intercalate labels

end FlowCadence.Url.Domain
