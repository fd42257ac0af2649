import KvmConsole.Text.Quoted

/-!
# Log records

What the console reports about its own work: a level, the place it comes from, a message and named
values. `Record.line` is the form in which a record is printed.
-/

namespace KvmConsole.Log

/-- How much a record matters, most first. -/
inductive Level where
  | error
  | warn
  | info
  | debug
  | trace
  deriving DecidableEq, Repr

namespace Level

/-- The rank of a level: a filter lets everything up to its own rank pass. -/
def verbosity : Level → Nat
  | error => 1
  | warn => 2
  | info => 3
  | debug => 4
  | trace => 5

def name : Level → String
  | error => "ERROR"
  | warn => "WARN"
  | info => "INFO"
  | debug => "DEBUG"
  | trace => "TRACE"

end Level

/-- The value of a field. -/
inductive Value where
  /-- A text that is printed as it stands. -/
  | plain (text : String)
  /-- A text that is printed between quotation marks. -/
  | quoted (text : String)
  | flag (value : Bool)
  | natural (value : Nat)
  | integer (value : Int)
  deriving DecidableEq, Repr

def Value.text : Value → String
  | plain t => t
  | quoted t => Text.quote t
  | flag b => if b then "true" else "false"
  | natural n => toString n
  | integer n => toString n

structure Record where
  level : Level
  target : String
  message : String
  fields : List (String × Value)
  deriving DecidableEq, Repr

/-- Whether a terminal acts on a character, line breaks and tabs apart. -/
def steersTerminal (c : Char) : Bool :=
  c ∈ ['\x07', '\x08', '\x0c', '\x1b', '\x7f'] || 0x80 ≤ c.toNat && c.toNat ≤ 0x9f

/-- A message as it is printed: what a terminal would act on is written as its number. -/
def printedMessage (message : String) : String :=
  String.join (message.toList.map fun c =>
    if !steersTerminal c then c.toString
    else
      let digits := String.ofList (Nat.toDigits 16 c.toNat)
      if 0x80 ≤ c.toNat then "\\u\x7b" ++ digits ++ "\x7d"
      else "\\x" ++ "".pushn '0' (2 - digits.length) ++ digits)

/-- A record as it is printed, without the time: level, target, message, and the fields in order. -/
def Record.line (r : Record) : String :=
  r.level.name ++ " " ++ r.target ++ ": " ++
    " ".intercalate
      (printedMessage r.message :: r.fields.map fun (name, value) => name ++ "=" ++ value.text)

end KvmConsole.Log
