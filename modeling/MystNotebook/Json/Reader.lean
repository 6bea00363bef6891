import MystNotebook.Json.Fields
import MystNotebook.Json.Token

/-! Reading a JSON text: the tokens are placed one by one under the arrays and objects that are
still open, and nesting beyond a limit is refused. -/
namespace MystNotebook.Json

/-- An open array or object with what it holds so far, the latest first. -/
inductive Frame where
  | array (items : List Value)
  | object (fields : List (String × Value))
  | field (fields : List (String × Value)) (key : String)

inductive Expected where
  /-- A value, or the end of an array that has just been opened. -/
  | firstItem
  | value
  | key
  | firstKey
  | colon
  | commaOrClose
  | nothing
  deriving DecidableEq

structure Builder where
  frames : List Frame := []
  depth : Nat := 0
  expected : Expected := .value
  result : Value := .null

namespace Builder

def wantsValue (b : Builder) : Bool := b.expected == .value || b.expected == .firstItem

def put (b : Builder) (v : Value) : Option Builder :=
  match b.frames with
  | [] => some { b with expected := .nothing, result := v }
  | .array items :: rest =>
    some { b with frames := .array (v :: items) :: rest, expected := .commaOrClose }
  | .field fields key :: rest =>
    some { b with frames := .object ((key, v) :: fields) :: rest, expected := .commaOrClose }
  | .object _ :: _ => none

def enter (limit : Nat) (b : Builder) (frame : Frame) (expected : Expected) : Option Builder :=
  if b.wantsValue ∧ b.depth < limit then
    some { b with frames := frame :: b.frames, depth := b.depth + 1, expected := expected }
  else none

def leave (b : Builder) (rest : List Frame) (v : Value) : Option Builder :=
  { b with frames := rest, depth := b.depth - 1 }.put v

def place (limit : Nat) (b : Builder) : Token → Option Builder
  | .openArray => b.enter limit (.array []) .firstItem
  | .openObject => b.enter limit (.object []) .firstKey
  | .closeArray =>
    match b.frames, b.expected with
    | .array items :: rest, .firstItem => b.leave rest (.array items.reverse)
    | .array items :: rest, .commaOrClose => b.leave rest (.array items.reverse)
    | _, _ => none
  | .closeObject =>
    match b.frames, b.expected with
    | .object fields :: rest, .firstKey => b.leave rest (.ofFields (.ofList fields.reverse))
    | .object fields :: rest, .commaOrClose => b.leave rest (.ofFields (.ofList fields.reverse))
    | _, _ => none
  | .comma =>
    match b.frames, b.expected with
    | .array _ :: _, .commaOrClose => some { b with expected := .value }
    | .object _ :: _, .commaOrClose => some { b with expected := .key }
    | _, _ => none
  | .colon => if b.expected = .colon then some { b with expected := .value } else none
  | .scalar (.string s) =>
    match b.frames with
    | .object fields :: rest =>
      if b.expected = .key ∨ b.expected = .firstKey then
        some { b with frames := .field fields s :: rest, expected := .colon }
      else none
    | _ => if b.wantsValue then b.put (.string s) else none
  | .scalar v => if b.wantsValue then b.put v else none

end Builder

/-- Arrays and objects may be nested as deep as `limit`. -/
def read (limit : Nat) (text : List Char) : Option Value := do
  let b ← (← tokens text).foldlM (Builder.place limit) {}
  guard (b.expected = .nothing)
  some b.result

end MystNotebook.Json
