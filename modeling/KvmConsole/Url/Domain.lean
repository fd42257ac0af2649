import KvmConsole.Text.LetterCase
import KvmConsole.Text.Printable
import KvmConsole.Url.Address
import KvmConsole.Url.Punycode

/-!
# Domain names

The ASCII form of a domain name. Capitals become small, characters that do not count are dropped,
and labels beyond ASCII are written in Punycode behind a mark. A name with a character that has no
place in a host is refused.
-/

namespace KvmConsole.Url

/-- The ASCII characters that no host has. -/
def isForbiddenInDomain (c : Char) : Bool :=
  c.toNat ≤ 0x20 || c.toNat = 0x7f ||
    ['%', '#', '/', ':', '<', '>', '?', '@', '[', '\\', ']', '^', '|'].contains c

/-- The full stops of other scripts, which separate labels as the ASCII one does. -/
def isFullStop (c : Char) : Bool := c = '\u3002' || c = '\uff61'

/-- The wide forms of the ASCII characters, which count as those. -/
def isWide (c : Char) : Bool := 0xff01 ≤ c.toNat && c.toNat ≤ 0xff5e

/-- What a character counts as in a name. -/
def foldChar (c : Char) : List Char :=
  if c.toNat < 0x80 then [Text.smallLetter c]
  else if isFullStop c then ['.']
  else if isWide c then [Text.smallLetter (Char.ofNat (c.toNat - 0xfee0))]
  else if Text.isIgnorable c then []
  else [Text.smallLetter c]

/-- Whether a character beyond ASCII may stand in a label. -/
def isLabelChar (c : Char) : Bool := !Text.inRanges Text.unprintableRanges c

/-- Whether a label that is not all ASCII may be one: no mark comes first. -/
def isLabel (label : List Char) : Bool :=
  label.all (fun c => c.toNat < 0x80 || isLabelChar c) &&
    label.head?.all fun c => !Text.inRanges Text.extendingRanges c

def isAscii (s : List Char) : Bool := s.all (·.toNat < 0x80)

/-- The mark of a label in Punycode. -/
def aceMark : List Char := ['x', 'n', '-', '-']

/-- The ASCII form of a folded label. A label that bears the mark has to be the form of another one,
    so it must be all ASCII itself. -/
def labelToAscii (label : List Char) : Option (List Char) :=
  if isAscii label then
    if aceMark.isPrefixOf label then do
      let decoded ← Punycode.decode (label.drop aceMark.length)
      if !isAscii decoded && isLabel decoded && decoded.flatMap foldChar = decoded &&
          aceMark ++ Punycode.encode decoded = label then some label
      else none
    else some label
  else if isLabel label && !aceMark.isPrefixOf label then some (aceMark ++ Punycode.encode label)
  else none

/-- The ASCII form of a domain name. -/
def domainToAscii (domain : List Char) : Option (List Char) := do
  let folded := domain.flatMap foldChar
  if folded.any isForbiddenInDomain then none
  else
    let labels ← (splitAt '.' folded).mapM labelToAscii
    return ['.'].intercalate labels

end KvmConsole.Url
