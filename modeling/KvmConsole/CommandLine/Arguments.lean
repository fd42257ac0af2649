import KvmConsole.Msd.Status

/-!
# Arguments

The command line is read from left to right. Options of the program come before the command, and
those of the command behind it. An option takes its value from the same word (`--url=x`, `-cx`,
`-c=x`) or from the next one, which must not look like an option. Nothing may be given twice. What
has no value on the command line is taken from the environment.

The first problem decides, and so does the first call for help. A value in a word of its own is
looked at only when the word behind it has been read, and a value of the program in front of its
command only after the arguments of the command.
-/

namespace KvmConsole.CommandLine

/-- What the program is told to do. -/
inductive Command where
  | watch
  | upload (file : String) (name : Option String)
  | connect (target : Msd.Target)
  | reset
  deriving DecidableEq, Repr

structure Arguments where
  /-- The path of the settings. -/
  config : Option String
  url : Option String
  user : Option String
  passwd : Option String
  touch : Bool
  command : Command
  deriving DecidableEq, Repr

/-- Why there is nothing to run. -/
inductive Stop where
  /-- The arguments make no sense. -/
  | misuse
  /-- Help has been asked for. -/
  | help
  /-- The version has been asked for. -/
  | version
  deriving DecidableEq, Repr

/-- The exit status of a program that has nothing to run. -/
def Stop.exitCode : Stop → Nat
  | misuse => 2
  | help | version => 0

/-- The variables of the environment. -/
abbrev Environment := String → Option String

/-- What can be given a value on the command line. -/
inductive Slot where
  | config
  | url
  | user
  | passwd
  | touch
  | file
  | name
  | target
  deriving DecidableEq, Repr

namespace Slot

/-- Whether a text can be the value: a path is not empty, and a target is known. -/
def accepts : Slot → String → Bool
  | config, text | file, text => text ≠ ""
  | target, text => (Msd.Target.ofName? text).isSome
  | url, _ | user, _ | passwd, _ | touch, _ | name, _ => true

/-- The variable that stands in for the option. -/
def variableName? : Slot → Option String
  | config => some "KVMD_CONSOLE_CONFIG"
  | url => some "KVMD_URL"
  | user => some "KVMD_USER"
  | passwd => some "KVMD_PASSWD"
  | touch | file | name | target => none

end Slot

/-! ## What may stand where -/

/-- The names of the commands. -/
inductive CommandName where
  | watch
  | upload
  | connect
  | reset
  deriving DecidableEq, Repr

/-- A part of the command line: that of the program, or that of a command. -/
structure Level where
  /-- The options with a value, under their long names. -/
  valued : List (String × Slot) := []
  /-- The options with a value, under their short names. -/
  shorts : List (Char × Slot) := []
  /-- The options without a value. -/
  flags : List (String × Slot) := []
  operand : Option Slot := none
  /-- The version can be asked for. -/
  versioned : Bool := false
  commands : List (String × CommandName) := []
  deriving DecidableEq, Repr

namespace Level

def program : Level where
  valued := [("config", .config), ("url", .url), ("user", .user), ("passwd", .passwd)]
  shorts := [('c', .config)]
  flags := [("touch", .touch)]
  versioned := true
  commands := [("watch", .watch), ("upload", .upload), ("connect", .connect), ("reset", .reset)]

/-- The part behind the name of a command. -/
def ofCommand : CommandName → Level
  | .watch | .reset => {}
  | .upload => { valued := [("name", .name)], operand := some .file }
  | .connect => { operand := some .target }

end Level

/-- What a word looks like. -/
inductive Form where
  /-- Two dashes: only operands follow. -/
  | separator
  | long (name : String) (value : Option String)
  | short (letter : Char) (rest : List Char)
  /-- Anything else, a lone dash among them. -/
  | plain
  deriving DecidableEq, Repr

def Form.ofWord (word : String) : Form :=
  match word.toList with
  | ['-', '-'] => .separator
  | '-' :: '-' :: rest =>
    match rest.span (· ≠ '=') with
    | (name, []) => .long (String.ofList name) none
    | (name, _ :: value) => .long (String.ofList name) (some (String.ofList value))
  | '-' :: letter :: rest => .short letter rest
  | _ => .plain

/-! ## Reading -/

/-- What has been read of a part of the command line. -/
structure Reading where
  given : List (Slot × String) := []
  /-- The value that has not been looked at, or the option whose value is missing. -/
  pending : Option (Slot × Option String) := none
  deriving DecidableEq, Repr

namespace Reading

/-- Takes over a value. -/
def put (r : Reading) (slot : Slot) (value : String) : Except Stop Reading :=
  if (r.given.lookup slot).isSome ∨ ¬slot.accepts value then .error .misuse
  else .ok { r with given := r.given ++ [(slot, value)] }

/-- Takes over the pending value. -/
def settle (r : Reading) : Except Stop Reading :=
  match r.pending with
  | none => .ok r
  | some (_, none) => .error .misuse
  | some (slot, some value) => { r with pending := none }.put slot value

/-- Reads an option with a value. A value in the same word is taken over at once. -/
def option (r : Reading) (slot : Slot) (value : Option String) : Except Stop Reading := do
  let r ← r.settle
  match value with
  | some value => r.put slot value
  | none => return { r with pending := some (slot, none) }

/-- Reads an option that ends the matter. -/
def ask (r : Reading) (stop : Stop) : Except Stop Reading := do
  let _ ← r.settle
  throw stop

def long (r : Reading) (level : Level) (name : String) (value : Option String) :
    Except Stop Reading :=
  match level.valued.lookup name, level.flags.lookup name, value with
  | some slot, _, value => r.option slot value
  | none, some slot, none => r.option slot (some "")
  | none, none, none =>
    if name = "help" then r.ask .help
    else if level.versioned ∧ name = "version" then r.ask .version
    else .error .misuse
  | none, _, some _ => .error .misuse

def short (r : Reading) (level : Level) (letter : Char) (rest : List Char) : Except Stop Reading :=
  match level.shorts.lookup letter, rest with
  | some slot, [] => r.option slot none
  | some slot, '=' :: value => r.option slot (some (String.ofList value))
  | some slot, value => r.option slot (some (String.ofList value))
  | none, _ =>
    if letter = 'h' then r.ask .help
    else if level.versioned ∧ letter = 'V' then r.ask .version
    else .error .misuse

def operand (r : Reading) (level : Level) (word : String) : Except Stop Reading := do
  let r ← r.settle
  match level.operand with
  | none => throw .misuse
  | some slot =>
    if (r.given.lookup slot).isSome then throw .misuse
    else return { r with pending := some (slot, some word) }

end Reading

namespace Level

/-- Reads words of which none is an option. -/
def operands (level : Level) (r : Reading) : List String → Except Stop Reading
  | [] => .ok r
  | word :: rest => do level.operands (← r.operand level word) rest

/-- What comes of a call for help on some commands: one at most, which has to be known. -/
def help (level : Level) : List String → Stop
  | [] => .help
  | [word] => if word = "help" ∨ (level.commands.lookup word).isSome then .help else .misuse
  | _ => .misuse

/-- Reads a part of the command line, up to a command or to the end. What follows a command is
    returned with its name; a call for help on commands ends the matter. -/
def scan (level : Level) (r : Reading) :
    List String → Except Stop (Reading × Option (CommandName × List String))
  | [] => .ok (r, none)
  | word :: rest =>
    match Form.ofWord word, r.pending with
    | .separator, _ => do return (← level.operands r rest, none)
    | .long name value, _ => do level.scan (← r.long level name value) rest
    | .short letter more, _ => do level.scan (← r.short level letter more) rest
    | .plain, some (slot, none) => level.scan { r with pending := some (slot, some word) } rest
    | .plain, _ =>
      match level.commands.lookup word with
      | some name => .ok (r, some (name, rest))
      | none =>
        if level.commands ≠ [] ∧ word = "help" then .error (level.help rest)
        else do level.scan (← r.operand level word) rest

/-- Reads a part of the command line to its end, where the operand must not be missing. -/
def readAll (level : Level) (words : List String) : Except Stop Reading := do
  let (r, _) ← level.scan {} words
  let r ← r.settle
  if level.operand.all fun slot => (r.given.lookup slot).isSome then return r else throw .misuse

end Level

/-- The command of a name and what was given for it. -/
def Command.ofReading (r : Reading) : CommandName → Except Stop Command
  | .watch => .ok .watch
  | .reset => .ok .reset
  | .upload =>
    match r.given.lookup .file with
    | some file => .ok (.upload file (r.given.lookup .name))
    | none => .error .misuse
  | .connect =>
    match (r.given.lookup .target).bind Msd.Target.ofName? with
    | some target => .ok (.connect target)
    | none => .error .misuse

namespace Arguments

/-- The value of an option: that of the command line, or else that of the environment. -/
def value (environment : Environment) (r : Reading) (slot : Slot) : Except Stop (Option String) :=
  match r.given.lookup slot, slot.variableName?.bind environment with
  | some value, _ => .ok (some value)
  | none, none => .ok none
  | none, some value => if slot.accepts value then .ok (some value) else .error .misuse

/-- Reads the command line. -/
def ofWords (environment : Environment) (words : List String) : Except Stop Arguments := do
  match ← Level.program.scan {} words with
  | (_, none) => throw .misuse
  | (r, some (name, rest)) =>
    let command ← Command.ofReading (← (Level.ofCommand name).readAll rest) name
    let r ← r.settle
    return {
      config := ← value environment r .config
      url := ← value environment r .url
      user := ← value environment r .user
      passwd := ← value environment r .passwd
      touch := (r.given.lookup .touch).isSome
      command }

end Arguments

end KvmConsole.CommandLine
