import KvmConsole.Text.Printable

/-!
# Quoted text

A text between quotation marks, on one line and without invisible characters: the quotation mark and
the backslash are escaped, NUL, tab and the line breaks have letters, and every other unprintable
character is spelt `\u{…}` by its number in lower-case hexadecimal.
-/

namespace KvmConsole.Text

/-- A character as it stands in a quoted text. -/
def quoteChar (c : Char) : List Char :=
  if c = '"' || c = '\\' then ['\\', c]
  else if c = '\x00' then ['\\', '0']
  else if c = '\t' then ['\\', 't']
  else if c = '\r' then ['\\', 'r']
  else if c = '\n' then ['\\', 'n']
  else if isPrintable c then [c]
  else ['\\', 'u', '\x7b'] ++ Nat.toDigits 16 c.toNat ++ ['\x7d']

/-- A text between quotation marks. -/
def quote (s : String) : String :=
  String.ofList ('"' :: s.toList.flatMap quoteChar ++ ['"'])

end KvmConsole.Text
