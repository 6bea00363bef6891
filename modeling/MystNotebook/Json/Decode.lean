import MystNotebook.Json.Fields
import MystNotebook.Json.Printer
import MystNotebook.Text.Quoted

/-! Reading JSON values as data of a known shape. Nothing is converted: a number is not a text, and
a number with a fraction is not an integer. -/
namespace MystNotebook.Json

inductive DecodeError where
  | wrongType (found : Value) (expected : String)
  | missingField (name : String)
  /-- An array that stands for a record has too few items. -/
  | tooShort (length : Nat) (record : String) (size : Nat)
  | tooLong (length : Nat)
  | unreadableNode
  | notAPage

def Value.describe : Value → String
  | .null => "null"
  | .bool b => "boolean `" ++ (if b then "true" else "false") ++ "`"
  | .number (.int i) => "integer `" ++ toString i ++ "`"
  | .number (.double bits) => "floating point `" ++ String.ofList (Double.write bits) ++ "`"
  | .string s => "string " ++ Text.quoted s
  | .array _ => "sequence"
  | .object _ => "map"

def DecodeError.message : DecodeError → String
  | .wrongType found expected => "invalid type: " ++ found.describe ++ ", expected " ++ expected
  | .missingField name => "missing field `" ++ name ++ "`"
  | .tooShort length record size =>
    "invalid length " ++ toString length ++ ", expected struct " ++ record ++ " with " ++
      toString size ++ " elements"
  | .tooLong length => "invalid length " ++ toString length ++ ", expected fewer elements in array"
  | .unreadableNode => "data did not match any variant of untagged enum Node"
  | .notAPage => "expected a MyST page with an `mdast` field or an mdast root"

namespace Value

def text : Value → Except DecodeError String
  | .string s => .ok s
  | v => .error (.wrongType v "a string")

def items : Value → Except DecodeError (List Value)
  | .array vs => .ok vs
  | v => .error (.wrongType v "a sequence")

def map : Value → Except DecodeError Fields
  | .object fs => .ok (.ofList fs)
  | v => .error (.wrongType v "a map")

/-- Null stands for a missing value. -/
def optional {α : Type} (read : Value → Except DecodeError α) :
    Value → Except DecodeError (Option α)
  | .null => .ok none
  | v => (read v).map some

/-- A record is an object, read in the order of its keys, or an array of the fields in the order of
`names`, of which the last may be missing. -/
def record {α : Type} (name : String) (names : List String) (start : α)
    (readField : α → String → Value → Except DecodeError α) : Value → Except DecodeError α
  | .object fs => (Fields.ofList fs).entries.foldlM (fun r e => readField r e.1 e.2) start
  | .array vs => do
    let r ← (names.zip vs).foldlM (fun r e => readField r e.1 e.2) start
    if names.length < vs.length then .error (.tooLong vs.length) else .ok r
  | v => .error (.wrongType v ("struct " ++ name))

end Value
end MystNotebook.Json
