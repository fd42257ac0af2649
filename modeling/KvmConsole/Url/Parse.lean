import KvmConsole.Url.Basic
import KvmConsole.Url.Domain

/-!
# Reading addresses

`parse` reads an address, `join` one that may be relative to another. Blanks around it do not count,
nor do tabs and line ends inside it. A text that is no address is refused with a `Fault`.
-/

namespace KvmConsole.Url

open Text (natOfDigits)

/-- Why a text is no address. -/
inductive Fault where
  | relativeWithoutBase
  | relativeToOpaque
  | emptyHost
  | invalidPort
  | invalidIpv4
  | invalidIpv6
  | invalidDomain
  | invalidHostCharacter
  deriving DecidableEq, Repr

def Fault.message : Fault → String
  | relativeWithoutBase => "relative URL without a base"
  | relativeToOpaque => "relative URL with a cannot-be-a-base base"
  | emptyHost => "empty host"
  | invalidPort => "invalid port number"
  | invalidIpv4 => "invalid IPv4 address"
  | invalidIpv6 => "invalid IPv6 address"
  | invalidDomain => "invalid international domain name"
  | invalidHostCharacter => "invalid domain character"

/-! ## Hosts -/

/-- The characters that no host of an uncommon scheme has. -/
def isForbiddenInHost (c : Char) : Bool :=
  c = '\x00' || c = '\t' || c = '\n' || c = '\r' ||
    [' ', '#', '/', ':', '<', '>', '?', '@', '[', '\\', ']', '^', '|'].contains c

/-- Reads a host in brackets. -/
def readBracketed (s : List Char) : Except Fault Host :=
  if s.getLast? = some ']' then
    match ipv6? s.dropLast with
    | some groups => .ok (.ipv6 groups)
    | none => .error .invalidIpv6
  else .error .invalidIpv6

/-- Reads the host of a common scheme. -/
def readDomain (s : List Char) : Except Fault Host :=
  match (String.fromUTF8? ⟨(decode s).toArray⟩).bind fun d => domainToAscii d.toList with
  | none => .error .invalidDomain
  | some domain =>
    if domain.isEmpty then .error .emptyHost
    else if endsInNumber domain then
      match ipv4? domain with
      | some address => .ok (.ipv4 address)
      | none => .error .invalidIpv4
    else .ok (.domain (.ofList domain))

/-- Reads a host that is not empty. -/
def readHost (special : Bool) : List Char → Except Fault Host
  | '[' :: s => readBracketed s
  | s =>
    if special then readDomain s
    else if s.any isForbiddenInHost then .error .invalidHostCharacter
    else .ok (.domain (encode isControl s))

/-! ## Authorities -/

/-- Whether a character ends the part of an address in which the host is. -/
def endsAuthority (special : Bool) (c : Char) : Bool :=
  c = '/' || c = '?' || c = '#' || special && c = '\\'

/-- The text before the last at sign, and the text after it. -/
def splitUserinfo (s : List Char) : Option (List Char × List Char) :=
  if s.contains '@' then
    let after := (s.reverse.takeWhile (· ≠ '@')).reverse
    some (s.take (s.length - after.length - 1), after)
  else none

/-- A user and, after a colon, a password. -/
def readUserinfo (s : List Char) : Userinfo :=
  ⟨encode inUserinfoSet (s.takeWhile (· ≠ ':')),
    encode inUserinfoSet ((s.dropWhile (· ≠ ':')).drop 1)⟩

/-- The length of a host: it ends at a colon outside brackets. -/
def hostLength (inBrackets : Bool) : List Char → Nat
  | [] => 0
  | c :: rest =>
    if c = ':' && !inBrackets then 0
    else hostLength (if c = '[' then true else if c = ']' then false else inBrackets) rest + 1

/-- A number that a port can have. Without digits there is none. -/
def readPort (s : List Char) : Except Fault (Option UInt16) :=
  if s.isEmpty then .ok none
  else if s.all Char.isDigit ∧ natOfDigits 10 s < UInt16.size then
    .ok (some (UInt16.ofNat (natOfDigits 10 s)))
  else .error .invalidPort

/-- Reads a host and a port. Only addresses of uncommon schemes may have neither. -/
def readHostPort (scheme : String) (s : List Char) :
    Except Fault (Option Host × Option UInt16) := do
  let host := s.take (hostLength false s)
  let rest := s.drop (hostLength false s)
  if host.isEmpty then
    if isSpecial scheme || !rest.isEmpty then .error .emptyHost else return (none, none)
  else
    let host ← readHost (isSpecial scheme) host
    let port ← readPort (rest.drop 1)
    return (some host, if port = defaultPort? scheme then none else port)

/-- Reads what stands between two slashes and the path. -/
def readAuthority (scheme : String) (s : List Char) : Except Fault (Option Authority) := do
  let (userinfo, s) := match splitUserinfo s with
    | some (before, after) => (readUserinfo before, after)
    | none => (.none, s)
  let (host, port) ← readHostPort scheme s
  match host with
  | some host => return some ⟨userinfo, host, port⟩
  | none => if userinfo = .none then return some ⟨.none, .domain "", none⟩ else .error .emptyHost

/-! ## Paths -/

/-- The parts of a path between its slashes; in common schemes a backslash counts as one. -/
def splitPath (special : Bool) (s : List Char) : List (List Char) :=
  splitAt '/' (if special then s.map fun c => if c = '\\' then '/' else c else s)

/-- Whether an encoded segment stands for a single point. -/
def isSingleDot (segment : String) : Bool := [".", "%2e", "%2E"].contains segment

/-- Whether an encoded segment stands for two points. -/
def isDoubleDot (segment : String) : Bool :=
  ["..", "%2e%2e", "%2e%2E", "%2E%2e", "%2E%2E", "%2e.", "%2E.", ".%2e", ".%2E"].contains segment

/-- Follows the parts of a path, from the segments of `before` on. A single point stays where it is,
    two points go back, and a path that ends in points ends in a slash. -/
def followPath (before : List String) : List (List Char) → List String
  | [] => before
  | part :: rest =>
    let segment := encode inPathSet part
    let here :=
      if isDoubleDot segment then before.dropLast
      else if isSingleDot segment then before
      else before ++ [segment]
    if rest.isEmpty && (isDoubleDot segment || isSingleDot segment) then here ++ [""]
    else followPath here rest

/-- Drops a slash at the front of a path. -/
def dropSlash (special : Bool) : List Char → List Char
  | '/' :: rest => rest
  | '\\' :: rest => if special then rest else '\\' :: rest
  | s => s

/-- The path from the root on. In uncommon schemes there may be none. -/
def readPath (special : Bool) (s : List Char) : Path :=
  if s.isEmpty && !special then .segments []
  else .segments (followPath [] (splitPath special (dropSlash special s)))

/-! ## Addresses -/

/-- A text cut into the path, the query and the fragment of an address. -/
structure Pieces where
  path : List Char
  query : Option (List Char)
  fragment : Option (List Char)

/-- Cuts a text at its first number sign, and what is before that at its first question mark. -/
def cut (s : List Char) : Pieces :=
  let front := s.takeWhile (· ≠ '#')
  { path := front.takeWhile (· ≠ '?')
    query := if front.contains '?' then some ((front.dropWhile (· ≠ '?')).drop 1) else none
    fragment := if s.contains '#' then some ((s.dropWhile (· ≠ '#')).drop 1) else none }

/-- Gives an address the query and the fragment of a text. -/
def finish (u : Url) (p : Pieces) : Url :=
  { u with
    query := p.query.map (encode (inQuerySet (isSpecial u.scheme)))
    fragment := p.fragment.map (encode inFragmentSet) }

/-- Reads an address after its scheme and the slashes of its host. -/
def afterSlashes (scheme : String) (s : List Char) : Except Fault Url := do
  let special := isSpecial scheme
  let authority ← readAuthority scheme (s.takeWhile fun c => !endsAuthority special c)
  let pieces := cut (s.dropWhile fun c => !endsAuthority special c)
  return finish ⟨scheme, authority, readPath special pieces.path, none, none⟩ pieces

def isSlash (c : Char) : Bool := c = '/' || c = '\\'

/-- Reads the host of a file. The own machine has no name. -/
def readFileHost (s : List Char) : Except Fault (Option Authority) := do
  let host ← if s.isEmpty then pure (.domain "") else readHost true s
  let host := if host = .domain "localhost" then .domain "" else host
  return some ⟨.none, host, none⟩

/-- Reads the address of a file after its scheme. -/
def readFile (s : List Char) : Except Fault Url := do
  let slashes := s.takeWhile isSlash
  if slashes.length < 2 then
    let pieces := cut s
    return finish ⟨"file", some ⟨.none, .domain "", none⟩, readPath true pieces.path, none, none⟩
      pieces
  else
    let rest := s.drop 2
    let authority ← readFileHost (rest.takeWhile fun c => !endsAuthority true c)
    let pieces := cut (rest.dropWhile fun c => !endsAuthority true c)
    return finish ⟨"file", authority, readPath true pieces.path, none, none⟩ pieces

/-- Reads an address without a host after its scheme. -/
def readHostless (scheme : String) (s : List Char) : Url :=
  let pieces := cut s
  let path : Path :=
    match pieces.path with
    | '/' :: _ => readPath false pieces.path
    | path => .opaquePath (encode isControl path)
  finish ⟨scheme, none, path, none, none⟩ pieces

/-- Reads a relative address. -/
def readRelative (base : Url) (s : List Char) : Except Fault Url :=
  match s with
  | [] => .ok { base with fragment := none }
  | '?' :: _ => .ok (finish base (cut s))
  | '#' :: _ => .ok { base with fragment := (cut s).fragment.map (encode inFragmentSet) }
  | c :: rest =>
    if isSlash c then
      if rest.head?.any isSlash then
        match s with
        | '/' :: '/' :: rest => afterSlashes base.scheme rest
        | s => afterSlashes base.scheme (s.dropWhile isSlash)
      else
        let pieces := cut s
        .ok (finish { base with path := readPath (isSpecial base.scheme) pieces.path } pieces)
    else
      let pieces := cut s
      let before := match base.path with
        | .segments list => list.dropLast
        | .opaquePath _ => []
      let segments := splitPath (isSpecial base.scheme) pieces.path
      .ok (finish { base with path := .segments (followPath before segments) } pieces)

def isLetter (c : Char) : Bool := 'a' ≤ c && c ≤ 'z' || 'A' ≤ c && c ≤ 'Z'

def isSchemeChar (c : Char) : Bool := isLetter c || c.isDigit || c = '+' || c = '-' || c = '.'

/-- The scheme of an address, in small letters, and the text after its colon. -/
def splitScheme (s : List Char) : Option (String × List Char) :=
  let scheme := s.takeWhile isSchemeChar
  match s.dropWhile isSchemeChar with
  | ':' :: rest =>
    if scheme.head?.any isLetter then some (.ofList (scheme.map Char.toLower), rest) else none
  | _ => none

/-- Reads an address that has a scheme, after it. -/
def readWithScheme (base : Option Url) (scheme : String) (s : List Char) : Except Fault Url :=
  if scheme = "file" then readFile s
  else if isSpecial scheme then
    match base with
    | some base =>
      if base.scheme = scheme && (s.takeWhile isSlash).length < 2 then readRelative base s
      else afterSlashes scheme (s.dropWhile isSlash)
    | none => afterSlashes scheme (s.dropWhile isSlash)
  else
    match s with
    | '/' :: '/' :: rest => afterSlashes scheme rest
    | s => .ok (readHostless scheme s)

/-- Drops blanks and controls around a text, and tabs and line ends inside it. -/
def trim (s : List Char) : List Char :=
  let inner := (s.dropWhile (·.toNat ≤ 0x20)).reverse.dropWhile (·.toNat ≤ 0x20) |>.reverse
  inner.filter fun c => !(c = '\t' || c = '\n' || c = '\r')

/-- Reads an address, relative to a base if there is one. -/
def read (base : Option Url) (text : String) : Except Fault Url :=
  let s := trim text.toList
  match splitScheme s with
  | some (scheme, rest) => readWithScheme base scheme rest
  | none =>
    match base with
    | none => .error .relativeWithoutBase
    | some base =>
      match base.path with
      | .opaquePath _ =>
        if s.head? = some '#' then readRelative base s else .error .relativeToOpaque
      | .segments _ => readRelative base s

/-- Reads an address. -/
def parse (text : String) : Except Fault Url := read none text

/-- Reads an address that may be relative to this one. -/
def join (base : Url) (text : String) : Except Fault Url := read (some base) text

end KvmConsole.Url
