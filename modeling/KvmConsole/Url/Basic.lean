import KvmConsole.Url.Address

/-!
# Addresses

The parts of an address and its text. Every part is kept as it stands in the text, encoded.
-/

namespace KvmConsole

namespace Url

inductive Host where
  | domain (name : String)
  | ipv4 (address : UInt32)
  | ipv6 (groups : List Nat)
  deriving DecidableEq, Repr

def Host.text : Host → String
  | domain name => name
  | ipv4 address => ipv4Text address
  | ipv6 groups => "[" ++ ipv6Text groups ++ "]"

/-- The user and the password in front of a host. Either may be empty. -/
structure Userinfo where
  user : String
  passwd : String
  deriving DecidableEq, Repr

namespace Userinfo

def none : Userinfo := ⟨"", ""⟩

/-- The text in front of the host. An empty password has no colon, and without either there is no
    text. -/
def text (u : Userinfo) : String :=
  let passwd := if u.passwd = "" then "" else ":" ++ u.passwd
  if u.user = "" ∧ u.passwd = "" then "" else u.user ++ passwd ++ "@"

end Userinfo

/-- Where the host of an address is. -/
structure Authority where
  userinfo : Userinfo
  host : Host
  /-- Left out where it is the default of the scheme. -/
  port : Option UInt16
  deriving DecidableEq, Repr

def Authority.text (a : Authority) : String :=
  a.userinfo.text ++ a.host.text ++
    match a.port with
    | some port => ":" ++ toString port.toNat
    | none => ""

inductive Path where
  /-- Each segment stands after a slash. -/
  | segments (list : List String)
  /-- A path that is not made of segments. -/
  | opaquePath (text : String)
  deriving DecidableEq, Repr

def Path.text : Path → String
  | segments list => String.join (list.map fun segment => "/" ++ segment)
  | opaquePath text => text

end Url

structure Url where
  scheme : String
  authority : Option Url.Authority
  path : Url.Path
  query : Option String
  fragment : Option String
  deriving DecidableEq, Repr

namespace Url

/-- The schemes whose addresses always have a host and a path. -/
def isSpecial (scheme : String) : Bool :=
  ["http", "https", "ws", "wss", "ftp", "file"].contains scheme

def defaultPort? (scheme : String) : Option UInt16 :=
  if scheme = "http" ∨ scheme = "ws" then some 80
  else if scheme = "https" ∨ scheme = "wss" then some 443
  else if scheme = "ftp" then some 21
  else none

/-- The slashes and the host in front of the path. Without a host, two slashes at the front of a
    path must not be taken for those of a host. -/
def authorityText (u : Url) : String :=
  match u.authority with
  | some a => "//" ++ a.text
  | none =>
    match u.path with
    | .segments ("" :: _ :: _) => "/."
    | _ => ""

def text (u : Url) : String :=
  u.scheme ++ ":" ++ u.authorityText ++ u.path.text ++
    (match u.query with
      | some q => "?" ++ q
      | none => "") ++
    (match u.fragment with
      | some f => "#" ++ f
      | none => "")

/-- The path and the query, as a request names them. -/
def target (u : Url) : String :=
  u.path.text ++
    match u.query with
    | some q => "?" ++ q
    | none => ""

/-- Whether the address names a host. The own machine has no name. -/
def hasHost (u : Url) : Bool := u.authority.any fun a => a.host ≠ .domain ""

/-- Puts another scheme in front of an address, any but that of files. No address gets into the
    common schemes or out of them, and in those it needs a host. A port that is the default of the
    new scheme is left out. -/
def setScheme? (u : Url) (scheme : String) : Option Url :=
  if isSpecial scheme ≠ isSpecial u.scheme ∨ isSpecial scheme ∧ ¬u.hasHost then none
  else
    some { u with
      scheme
      authority := u.authority.map fun a =>
        if a.port = defaultPort? scheme then { a with port := none } else a }

/-- The address without user and password. -/
def withoutUserinfo (u : Url) : Url :=
  { u with authority := u.authority.map fun a => { a with userinfo := .none } }

end Url

end KvmConsole
