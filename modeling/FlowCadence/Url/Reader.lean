import FlowCadence.Settings.Basic
import FlowCadence.Url.Address
import FlowCadence.Url.Domain
/-! # A reader of URLs

Settings can be read with any reader of URLs, and nothing that is proved about them depends on
which one it is.  To run, one is needed, and this is one.

It brings the addresses of services that are called over `http` or `https` to their normal form:
scheme and host in lower case, no default port, no dots in the path, and percent signs where a
character may not stand for itself.  Of a URL with another scheme it only says that it is one, and
with which scheme. -/

namespace FlowCadence

/-- The host of a URL in its normal form. -/
inductive Url.Host where
  | domain (name : String)
  | address4 (n : Nat)
  | address6 (pieces : List Nat)
  deriving DecidableEq, Repr

/-- The parts of the address of a service on the web, in its normal form. -/
structure Url.Parts where
  scheme : String
  user : String
  password : String
  host : Url.Host
  /-- The port, where it is not the one the scheme implies. -/
  port : Option Nat
  path : List String
  query : Option String
  fragment : Option String
  deriving DecidableEq, Repr

namespace Url

/-- Why a text is not an absolute URL. -/
inductive Refusal where
  | noScheme
  | emptyHost
  | port
  | address4
  | address6
  | domain
  | character
  deriving DecidableEq, Repr

/-- The words of a refusal. -/
def Refusal.message : Refusal → String
  | .noScheme => "relative URL without a base"
  | .emptyHost => "empty host"
  | .port => "invalid port number"
  | .address4 => "invalid IPv4 address"
  | .address6 => "invalid IPv6 address"
  | .domain => "invalid international domain name"
  | .character => "invalid domain character"

/-- The text of a host. -/
def Host.text : Host → String
  | .domain name => name
  | .address4 n => address4Text n
  | .address6 ps => "[" ++ address6Text ps ++ "]"

/-- The text that the parts make up. -/
def Parts.text (u : Parts) : String :=
  let password := if u.password.isEmpty then "" else ":" ++ u.password
  let user := if u.user.isEmpty && u.password.isEmpty then "" else u.user ++ password ++ "@"
  let port := match u.port with
    | some p => ":" ++ toString p
    | none => ""
  let query := match u.query with
    | some q => "?" ++ q
    | none => ""
  let fragment := match u.fragment with
    | some f => "#" ++ f
    | none => ""
  u.scheme ++ "://" ++ user ++ u.host.text ++ port ++ "/" ++ "/".intercalate u.path ++ query ++
    fragment

/-! ## Hosts -/

/-- The host in brackets, or none when the brackets do not close. -/
def bracketed? (cs : List Char) : Except Refusal (List Nat) :=
  if cs.getLast? = some ']' then
    match address6? (cs.drop 1).dropLast with
    | some ps => .ok ps
    | none => .error .address6
  else .error .address6

/-- The host of a URL whose scheme names a web protocol. -/
def hostOf (cs : List Char) : Except Refusal Host :=
  if cs.isEmpty then .error .emptyHost
  else if cs.head? = some '[' then (bracketed? cs).map .address6
  else
    match (ofBytes? (decode cs)).bind Domain.toAscii with
    | none => .error .domain
    | some [] => .error .emptyHost
    | some domain =>
      if endsInNumber domain then
        match address4? domain with
        | some n => .ok (.address4 n)
        | none => .error .address4
      else .ok (.domain (String.ofList domain))

/-- The characters that no host may hold, whatever the scheme. -/
def opaqueForbidden : List Char :=
  ['\x00', '\t', '\n', '\r', ' ', '#', '/', ':', '<', '>', '?', '@', '[', '\\', ']', '^', '|']

/-- Whether the host of a URL with some other scheme is good. -/
def checkOpaqueHost (cs : List Char) : Except Refusal Unit :=
  if cs.head? = some '[' then (bracketed? cs).map fun _ => ()
  else if cs.any opaqueForbidden.contains then .error .character
  else .ok ()

/-! ## Authorities -/

/-- Whether a character ends the authority; a backslash does in web addresses. -/
def endsAuthority (web : Bool) (c : Char) : Bool :=
  c = '/' || c = '?' || c = '#' || (web && c = '\\')

/-- The host at the start of the text and the text behind it: it ends at a colon
    outside of brackets or where the authority ends. -/
def takeHost (web inside : Bool) : List Char → List Char × List Char
  | [] => ([], [])
  | c :: cs =>
    if endsAuthority web c || (c = ':' && !inside) then ([], c :: cs)
    else
      let (host, rest) := takeHost web (c = '[' || (inside && c != ']')) cs
      (c :: host, rest)

/-- The port at the start of the text, if one is given, and the text behind it. -/
def takePort (cs : List Char) : Except Refusal (Option Nat × List Char) :=
  match cs with
  | ':' :: cs =>
    let ds := cs.takeWhile Char.isDigit
    let rest := cs.dropWhile Char.isDigit
    let n := Nat.ofDigitChars 10 ds 0
    if 65535 < n then .error .port
    else if rest.head?.any fun c => !endsAuthority true c then .error .port
    else .ok (if ds.isEmpty then none else some n, rest)
  | cs => .ok (none, cs)

/-- The parts of an authority that are not decoded yet. -/
structure Authority where
  user : List Char
  password : List Char
  host : List Char

/-- Whether the authority names somebody. -/
def Authority.namesUser (a : Authority) : Bool := !a.user.isEmpty || !a.password.isEmpty

/-- The authority at the start of the text, and the text from the port on. -/
def takeAuthority (web : Bool) (cs : List Char) : Except Refusal (Authority × List Char) := do
  let authority := cs.takeWhile fun c => !endsAuthority web c
  let rest := cs.dropWhile fun c => !endsAuthority web c
  let (userinfo, cs) ← match Text.cutLast '@' authority with
    | none => pure ([], cs)
    | some (userinfo, hostPort) =>
      if userinfo.isEmpty && hostPort.isEmpty && !rest.isEmpty then throw .emptyHost
      else pure (userinfo, hostPort ++ rest)
  let (user, password) := (Text.cut ':' userinfo).getD (userinfo, [])
  let (host, cs) := takeHost web false cs
  return (⟨user, password, host⟩, cs)

/-! ## Paths -/

/-- Whether a piece of a path names the directory it is in. -/
def isHere (piece : List Char) : Bool :=
  ["." , "%2e"].contains (String.ofList (piece.map Char.toLower))

/-- Whether a piece of a path names the directory above. -/
def isAbove (piece : List Char) : Bool :=
  ["..", ".%2e", "%2e.", "%2e%2e"].contains (String.ofList (piece.map Char.toLower))

/-- The pieces of a path with the dots resolved; `done` is what stands in front,
    last piece first. -/
def resolve (done : List (List Char)) : List (List Char) → List (List Char)
  | [] => done.reverse
  | piece :: pieces =>
    let last := pieces.isEmpty
    if isAbove piece then resolve (if last then [] :: done.drop 1 else done.drop 1) pieces
    else if isHere piece then resolve (if last then [] :: done else done) pieces
    else resolve (piece :: done) pieces

/-- The path of a web address: what stands behind the first stroke. -/
def pathOf (cs : List Char) : List String :=
  let isStroke (c : Char) : Bool := c = '/' || c = '\\'
  let cs := if cs.head?.any isStroke then cs.drop 1 else cs
  (resolve [] ((Text.splitOn isStroke cs).map (encode pathChars))).map String.ofList

/-! ## URLs -/

/-- The scheme at the start of the text, in lower case, and the text behind its colon. -/
def takeScheme (cs : List Char) : Option (String × List Char) := do
  let (scheme, rest) ← Text.cut ':' cs
  let good (c : Char) : Bool := c.isAlphanum || c = '+' || c = '-' || c = '.'
  if (scheme.head?.any Char.isAlpha) && scheme.all good then
    return ((String.ofList scheme).toLower, rest)
  else none

/-- The ports that schemes of the web imply. -/
def impliedPort? (scheme : String) : Option Nat :=
  if scheme = "http" || scheme = "ws" then some 80
  else if scheme = "https" || scheme = "wss" then some 443
  else if scheme = "ftp" then some 21
  else none

/-- A URL of a scheme of the web, from behind its colon. -/
def readWeb (scheme : String) (cs : List Char) : Except Refusal Parts := do
  let (a, cs) ← takeAuthority true (cs.dropWhile fun c => c = '/' || c = '\\')
  let host ← hostOf a.host
  let (port, cs) ← takePort cs
  let fragment := (Text.cut '#' cs).map (·.2)
  let cs := cs.takeWhile (· != '#')
  let query := (Text.cut '?' cs).map (·.2)
  let path := cs.takeWhile (· != '?')
  return {
    scheme
    user := String.ofList (encode userinfoChars a.user)
    password := String.ofList (encode userinfoChars a.password)
    host
    port := if port = impliedPort? scheme then none else port
    path := pathOf path
    query := query.map fun q => String.ofList (encode queryChars q)
    fragment := fragment.map fun f => String.ofList (encode fragmentChars f) }

/-- Whether the two characters at the start name a drive, as paths of files may. -/
def isDrive (cs : List Char) : Bool :=
  match cs with
  | [a, b] => a.isAlpha && (b = ':' || b = '|')
  | _ => false

/-- Whether a URL of a file is good, from behind its colon. -/
def checkFile (cs : List Char) : Except Refusal Unit :=
  let isStroke (c : Char) : Bool := c = '/' || c = '\\'
  match cs with
  | a :: b :: cs =>
    if isStroke a && isStroke b then
      let host := cs.takeWhile fun c => !endsAuthority true c
      if host.isEmpty || isDrive host then .ok () else (hostOf host).map fun _ => ()
    else .ok ()
  | _ => .ok ()

/-- Whether a URL of some other scheme is good, from behind its colon. -/
def checkOther (cs : List Char) : Except Refusal Unit :=
  match cs with
  | '/' :: '/' :: cs => do
    let (a, cs) ← takeAuthority false cs
    checkOpaqueHost a.host
    if a.host.isEmpty && cs.head? = some ':' then throw .emptyHost
    discard (takePort cs)
    if a.host.isEmpty && a.namesUser then throw .emptyHost
  | _ => .ok ()

/-- The text without control characters and blanks around it, and without tabs
    and line ends in it. -/
def clean (cs : List Char) : List Char :=
  let trimmed := ((cs.dropWhile (·.toNat ≤ 0x20)).reverse.dropWhile (·.toNat ≤ 0x20)).reverse
  trimmed.filter fun c => !(c = '\t' || c = '\n' || c = '\r')

/-- The absolute URL that characters write.  The text of a URL of another scheme is left as it
    is. -/
def readChars (cs : List Char) : Except Refusal Url :=
  match takeScheme cs with
  | none => .error .noScheme
  | some (scheme, rest) =>
    if scheme = "http" || scheme = "https" then
      (readWeb scheme rest).map fun parts => ⟨scheme, parts.text⟩
    else if (impliedPort? scheme).isSome then
      (readWeb scheme rest).map fun _ => ⟨scheme, String.ofList cs⟩
    else if scheme = "file" then (checkFile rest).map fun _ => ⟨scheme, String.ofList cs⟩
    else (checkOther rest).map fun _ => ⟨scheme, String.ofList cs⟩

/-- A reader of URLs. -/
def read : Reader := fun s => (readChars (clean s.toList)).mapError Refusal.message

end Url

end FlowCadence
