import KvmConsole.Text.Digits

/-!
# Percent encoding

Characters that have no place in a part of an address are spelt by their bytes in UTF-8, each as a
percent sign and two hexadecimal digits. What has to be spelt depends on the part; characters beyond
ASCII always are.
-/

namespace KvmConsole.Url

open Text (hexValue?)

/-- A control character of ASCII. -/
def isControl (c : Char) : Bool := c.toNat < 0x20 || c.toNat = 0x7f

/-- What is spelt in fragments. -/
def inFragmentSet (c : Char) : Bool :=
  isControl c || c = ' ' || c = '"' || c = '<' || c = '>' || c = Char.ofNat 0x60

/-- What is spelt in queries; apostrophes only in those of the common schemes. -/
def inQuerySet (special : Bool) (c : Char) : Bool :=
  isControl c || c = ' ' || c = '"' || c = '#' || c = '<' || c = '>' || special && c = '\''

/-- What is spelt in the segments of a path. -/
def inPathSet (c : Char) : Bool :=
  inFragmentSet c || c = '#' || c = '?' || c = '\x7b' || c = '\x7d'

/-- What is spelt in user names and passwords. -/
def inUserinfoSet (c : Char) : Bool :=
  inPathSet c || c = '/' || c = ':' || c = ';' || c = '=' || c = '@' || c = '[' || c = '\\' ||
    c = ']' || c = '^' || c = '|'

/-- A hexadecimal digit in capitals. -/
def hexDigit (n : Nat) : Char := (Nat.digitChar n).toUpper

def encodeByte (b : UInt8) : List Char := ['%', hexDigit (b.toNat / 16), hexDigit (b.toNat % 16)]

def encodeChar (spelt : Char → Bool) (c : Char) : List Char :=
  if c.toNat < 0x80 && !spelt c then [c] else (String.utf8EncodeChar c).flatMap encodeByte

/-- Spells the characters of a set, and all that are not ASCII. -/
def encode (spelt : Char → Bool) (s : List Char) : String :=
  String.ofList (s.flatMap (encodeChar spelt))

/-- The bytes of a text in which bytes may be spelt. -/
def decode : List Char → List UInt8
  | '%' :: a :: b :: rest =>
    match hexValue? a, hexValue? b with
    | some high, some low => UInt8.ofNat (high * 16 + low) :: decode rest
    | _, _ => '%'.val.toUInt8 :: decode (a :: b :: rest)
  | c :: rest => String.utf8EncodeChar c ++ decode rest
  | [] => []

end KvmConsole.Url
