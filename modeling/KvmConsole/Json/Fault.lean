import KvmConsole.Binary64.Decimal
import KvmConsole.Json.Basic
import KvmConsole.Text.Quoted

/-!
# What can be wrong with a JSON text

A text can end too early, break the grammar, or hold a value of another shape than the reader wants.
Only the last kind is described further, by `Mismatch.message`.
-/

namespace KvmConsole.Json

/-- A value as a mismatch names it: scalars in full, containers by their kind. -/
inductive Found where
  | null
  | bool (value : Bool)
  | integer (value : Int)
  | float (value : Binary64)
  | string (value : String)
  | sequence
  | map
  deriving DecidableEq, Repr

/-- Why a value does not have the shape that was asked for. -/
inductive Mismatch where
  | invalidType (found : Found) (expected : String)
  | invalidValue (found : Found) (expected : String)
  | invalidLength (length : Nat) (expected : String)
  | missingField (name : String)
  | duplicateField (name : String)
  | unknownVariant (name : String) (expected : List String)
  deriving DecidableEq, Repr

/-- Why a JSON text was refused. -/
inductive Fault where
  /-- The text ended inside a value. -/
  | truncated
  /-- The text is not JSON. -/
  | ungrammatical
  /-- The text is JSON of another shape. -/
  | mismatch (reason : Mismatch)
  deriving DecidableEq, Repr

/-- Writes a finite number with the fewest digits that read back: positionally, with at least one
    digit after the point, if its leading digit has a power from -5 to 15, and otherwise with a
    signed exponent. -/
def floatText : Binary64 → String
  | .nan => "NaN"
  | .infinity negative => if negative then "-inf" else "inf"
  | .finite negative v =>
    let body :=
      if v = 0 then "0.0"
      else
        let d := Binary64.shortest (Binary64.magnitude v)
        let digits := Nat.toDigits 10 d.digits
        let lead : Int := d.power + digits.length - 1
        if -5 ≤ lead ∧ lead ≤ 15 then
          if 0 ≤ d.power then
            String.ofList (digits ++ List.replicate d.power.toNat '0' ++ ['.', '0'])
          else if 0 ≤ lead then
            let whole := lead.toNat + 1
            String.ofList (digits.take whole ++ '.' :: digits.drop whole)
          else
            String.ofList (['0', '.'] ++ List.replicate (-lead - 1).toNat '0' ++ digits)
        else
          let fraction := if digits.length = 1 then [] else '.' :: digits.drop 1
          let sign := if lead < 0 then "e-" else "e+"
          String.ofList (digits.take 1 ++ fraction) ++ sign ++ toString lead.natAbs
    if negative then "-" ++ body else body

def Number.found : Number → Found
  | .natural n => .integer n.toNat
  | .negative n => .integer n.toInt
  | .float x => .float x

/-- How a mismatch names a tree. -/
def found : Json → Found
  | .null => .null
  | .bool b => .bool b
  | .number n => n.found
  | .string s => .string s
  | .array _ => .sequence
  | .object _ => .map

def Found.text : Found → String
  | .null => "null"
  | .bool b => "boolean `" ++ (if b then "true" else "false") ++ "`"
  | .integer n => "integer `" ++ toString n ++ "`"
  | .float x => "floating point `" ++ floatText x ++ "`"
  | .string s => "string " ++ Text.quote s
  | .sequence => "sequence"
  | .map => "map"

/-- The names that would have been accepted, each in back quotes. -/
def alternatives (names : List String) : String :=
  match names.map fun n => "`" ++ n ++ "`" with
  | [] => "there are no variants"
  | [one] => "expected " ++ one
  | [one, other] => "expected " ++ one ++ " or " ++ other
  | many => "expected one of " ++ ", ".intercalate many

def Mismatch.message : Mismatch → String
  | .invalidType found expected => "invalid type: " ++ found.text ++ ", expected " ++ expected
  | .invalidValue found expected => "invalid value: " ++ found.text ++ ", expected " ++ expected
  | .invalidLength length expected =>
    "invalid length " ++ toString length ++ ", expected " ++ expected
  | .missingField name => "missing field `" ++ name ++ "`"
  | .duplicateField name => "duplicate field `" ++ name ++ "`"
  | .unknownVariant name expected =>
    "unknown variant `" ++ name ++ "`, " ++ alternatives expected

end KvmConsole.Json
