import KvmConsole.Log.Record

/-!
# Log filters

A filter is a list of directives between commas. `warn` sets the threshold of all records,
`panel=debug` that of the targets that begin with `panel`, and `panel` alone lets all of them pass.
Where several directives are about a record, the one with the longest target decides. Nothing passes
but what a directive allows; a filter without directives allows errors.

A directive may ask for more: for a field, in `panel[{size}]=info`, which a record has to have, and
for a span, in `panel[upload]=info`, which this console never enters.
-/

namespace KvmConsole.Log

/-- A threshold: the least level that passes, or nothing for `off`. -/
abbrev Threshold := Option Level

namespace Threshold

/-- The thresholds in their order, with the names that they are written with. -/
def names : List (String × Threshold) :=
  [("off", none), ("error", some .error), ("warn", some .warn), ("info", some .info),
    ("debug", some .debug), ("trace", some .trace)]

/-- The threshold with a number: `off` is 0, and `trace` is 5. -/
def ofNumber? (text : List Char) : Option Threshold :=
  let digits := match text with
    | '+' :: rest => rest
    | rest => rest
  if digits ≠ [] ∧ digits.all Char.isDigit then
    let value := digits.foldl (fun n c => 10 * n + (c.toNat - '0'.toNat)) 0
    (names.map Prod.snd)[value]?
  else none

/-- Reads a threshold: a number, or a name in letters of either case. -/
def ofText? (text : List Char) : Option Threshold :=
  (ofNumber? text).or (names.lookup (String.ofList (text.map Char.toLower)))

/-- Whether a threshold lets a level pass. -/
def allows (threshold : Threshold) (level : Level) : Bool :=
  threshold.any fun least => level.verbosity ≤ least.verbosity

end Threshold

/-- What a filter says about some of the records. -/
structure Directive where
  /-- The records whose target begins with this, or all of them. -/
  target : Option String := none
  /-- A field that the records have to have. -/
  field : Option String := none
  /-- It asks for a span or for the value of a field, and is about no record. -/
  spanOnly : Bool := false
  threshold : Threshold := some .trace
  deriving DecidableEq, Repr

namespace Directive

/-- Why a text is no directive. -/
inductive Fault where
  | malformed
  | unknownLevel
  deriving DecidableEq, Repr

def Fault.message : Fault → String
  | malformed => "invalid filter directive"
  | unknownLevel =>
    "error parsing level filter: expected one of \"off\", \"error\", \"warn\", \"info\", " ++
      "\"debug\", \"trace\", or a number 0-5"

/-! ## Reading -/

/-- Whether a target may begin with a character. -/
def isTargetStart (c : Char) : Bool :=
  c.isAlphanum || c = '-' || c = ':' || c = '_' || 0x80 ≤ c.toNat

/-- Reads the threshold behind a sign of equality. Without one, everything passes. -/
def readThreshold (d : Directive) (text : List Char) : Except Fault Directive :=
  if text = [] then .ok { d with threshold := some .trace }
  else
    match Threshold.ofText? text with
    | some threshold => .ok { d with threshold }
    | none => .error .unknownLevel

/-- Reads what may follow a span or a field: nothing, or a threshold. -/
def readEnd (d : Directive) : List Char → Except Fault Directive
  | [] => .ok d
  | '=' :: text => d.readThreshold text
  | _ => .error .malformed

/-- Reads a field between braces, behind the opening one. -/
def readField (d : Directive) (text : List Char) : Except Fault Directive :=
  match text.span (· ≠ '\x7d') with
  | ([], _) => .error .malformed
  | (field, _ :: ']' :: rest) =>
    match field.span (· ≠ '=') with
    | (name, []) => { d with field := some (String.ofList name) }.readEnd rest
    | (_, _ :: _) => { d with spanOnly := true }.readEnd rest
  | _ => .error .malformed

/-- Reads a span in brackets, behind the opening one. -/
def readSpan (d : Directive) (text : List Char) : Except Fault Directive :=
  match text.span (fun c => c ≠ ']' && c ≠ '\x7b') with
  | (_, ']' :: rest) => { d with spanOnly := true }.readEnd rest
  | (name, _ :: rest) => { d with spanOnly := name ≠ [] }.readField rest
  | (_, []) => .error .malformed

/-- Reads a directive. One word is a threshold if it reads as one, and a target otherwise. -/
def ofText (text : String) : Except Fault Directive :=
  match text.toList with
  | [] => .error .malformed
  | '[' :: rest => ({} : Directive).readSpan rest
  | c :: chars =>
    if !isTargetStart c then .error .malformed
    else
      match chars.span (fun c => c ≠ '=' && c ≠ '[') with
      | (more, []) =>
        match Threshold.ofText? (c :: more) with
        | some threshold => .ok { threshold }
        | none => .ok { target := some (String.ofList (c :: more)) }
      | (more, mark :: rest) =>
        let d : Directive := { target := some (String.ofList (c :: more)) }
        if mark = '=' then d.readThreshold rest else d.readSpan rest

/-! ## Meaning -/

/-- Whether a directive is about a record. Each record has its message as a field. -/
def concerns (d : Directive) (r : Record) : Bool :=
  !d.spanOnly && d.target.all (fun target => r.target.startsWith target) &&
    d.field.all fun field => field = "message" || r.fields.any fun (name, _) => name = field

/-- Whether a directive is at least as specific as another: the length of the target counts most,
    then the field. -/
def overrides (d other : Directive) : Bool :=
  let length (d : Directive) : Nat := d.target.elim 0 fun target => target.utf8ByteSize + 1
  if length d ≠ length other then length other < length d
  else
    match d.field, other.field with
    | _, none => true
    | none, some _ => false
    | some field, some otherField => otherField ≤ field

end Directive

/-- A filter. The directives stand in the order in which they were given. -/
structure Filter where
  directives : List Directive
  deriving DecidableEq, Repr

namespace Filter

/-- The filter with some directives. Without any, it allows errors. -/
def ofDirectives (directives : List Directive) : Filter :=
  ⟨if directives = [] then [{ threshold := some .error }] else directives⟩

/-- The texts of the directives. Nothing between two commas is no directive. -/
def parts (text : String) : List String := (text.splitOn ",").filter (· ≠ "")

/-- Reads a filter in which every directive has to be in order. -/
def ofText? (text : String) : Option Filter :=
  ((parts text).mapM fun part => (Directive.ofText part).toOption).map ofDirectives

/-- Reads a filter, and leaves out the directives that are not in order. A complaint is made about
    each of them. -/
def ofTextLossy (text : String) : Filter × List String :=
  let read := (parts text).map fun part => (part, Directive.ofText part)
  (ofDirectives (read.filterMap fun (_, d) => d.toOption),
    read.filterMap fun (part, d) =>
      match d with
      | .ok _ => none
      | .error fault => some ("ignoring \x60" ++ part ++ "\x60: " ++ fault.message))

/-- The directive that decides about a record: the most specific one, and the last of several. -/
def deciding (f : Filter) (r : Record) : Option Directive :=
  (f.directives.filter (·.concerns r)).foldl
    (fun best d =>
      match best with
      | none => some d
      | some other => if d.overrides other then some d else best)
    none

/-- Whether a record passes. -/
def allows (f : Filter) (r : Record) : Bool :=
  (f.deciding r).any fun d => d.threshold.allows r.level

end Filter

end KvmConsole.Log
