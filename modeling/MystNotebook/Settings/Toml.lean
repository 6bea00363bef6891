/-! Values of the TOML format, and tables built from key paths. -/
namespace MystNotebook.Toml

/-- How a table came about, which decides what may still be added to it. -/
inductive Origin where
  /-- On the way to another table. -/
  | passedThrough
  /-- By a header of its own. -/
  | header
  /-- By a dotted key. -/
  | dotted
  /-- Between braces, or inside a value; closed. -/
  | inline
  deriving DecidableEq, Repr

/-- The number `significand * 10 ^ exponent`. -/
structure Magnitude where
  significand : Nat
  exponent : Int
  deriving DecidableEq, Repr

/-- Whether the nearest double is finite. A tie between the largest double and the power of two
above it goes to that power, and only a number with 309 digits before its point has to be compared
with it. -/
def Magnitude.isFinite (m : Magnitude) : Bool :=
  let size := ((Nat.toDigits 10 m.significand).length : Int) + m.exponent
  let bound := (Nat.pow 2 54 - 1) * Nat.pow 2 970
  m.significand == 0 || size < 309 || size == 309 &&
    m.significand * Nat.pow 10 m.exponent.toNat < bound * Nat.pow 10 (-m.exponent).toNat

inductive Value where
  | string (text : String)
  | integer (value : Int)
  | boolean (value : Bool)
  /-- A number with a fraction or an exponent, without its sign; infinity and `nan` have no size. -/
  | float (size : Option Magnitude)
  | dateTime (text : String)
  | array (items : List Value)
  | table (origin : Origin) (entries : List (String × Value))
  /-- The tables of an array of tables, the latest first. -/
  | tables (items : List (List (String × Value)))
  deriving Repr

abbrev Table := List (String × Value)

mutual

/-- Integers take at most 128 bits, with or without a sign, and floats have a finite double. -/
def Value.isRepresentable : Value → Bool
  | .integer n => -(Nat.pow 2 127 : Int) ≤ n && n < Nat.pow 2 128
  | .float (some size) => size.isFinite
  | .array items => allRepresentable items
  | .table _ entries => entriesRepresentable entries
  | .tables items => tablesRepresentable items
  | _ => true

def allRepresentable : List Value → Bool
  | [] => true
  | v :: items => v.isRepresentable && allRepresentable items

def entriesRepresentable : List (String × Value) → Bool
  | [] => true
  | (_, v) :: entries => v.isRepresentable && entriesRepresentable entries

def tablesRepresentable : List (List (String × Value)) → Bool
  | [] => true
  | entries :: items => entriesRepresentable entries && tablesRepresentable items

end

def find (key : String) : Table → Option Value
  | [] => none
  | (k, v) :: rest => if k = key then some v else find key rest

def assign (key : String) (value : Value) : Table → Table
  | [] => [(key, value)]
  | (k, v) :: rest => if k = key then (k, value) :: rest else (k, v) :: assign key value rest

/-- Sets a key below the table. A key is set once; of the tables on the way, those under a header of
their own and closed ones are not added to, and the others count as dotted from then on. -/
def insert (value : Value) : List String → Table → Option Table
  | [], _ => none
  | [key], t => if (find key t).isSome then none else some (assign key value t)
  | key :: path, t =>
    match find key t with
    | none => (insert value path []).map fun sub => assign key (.table .dotted sub) t
    | some (.table .dotted sub) | some (.table .passedThrough sub) =>
      (insert value path sub).map fun sub => assign key (.table .dotted sub) t
    | some _ => none

/-- Changes the table that a path leads to. `last` says what becomes of the value at its end. -/
def reach (last : Option Value → Option Value) : List String → Table → Option Table
  | [], _ => none
  | [key], t => (last (find key t)).map fun v => assign key v t
  | key :: path, t =>
    match find key t with
    | none => (reach last path []).map fun sub => assign key (.table .passedThrough sub) t
    | some (.table .inline _) => none
    | some (.table origin sub) =>
      (reach last path sub).map fun sub => assign key (.table origin sub) t
    | some (.tables (sub :: rest)) =>
      (reach last path sub).map fun sub => assign key (.tables (sub :: rest)) t
    | some _ => none

/-- A header opens a table once. -/
def openTable : Option Value → Option Value
  | none => some (.table .header [])
  | some (.table .passedThrough sub) => some (.table .header sub)
  | some _ => none

/-- A double header opens a further table of an array. -/
def openItem : Option Value → Option Value
  | none => some (.tables [[]])
  | some (.tables items) => some (.tables ([] :: items))
  | some _ => none

/-- Sets a key in the table under the header that was opened last. -/
def insertUnder (header path : List String) (value : Value) (t : Table) : Option Table :=
  if header.isEmpty then insert value path t
  else
    let add := fun
      | some (.table origin sub) => (insert value path sub).map (Value.table origin)
      | some (.tables (sub :: rest)) => (insert value path sub).map fun sub => .tables (sub :: rest)
      | _ => none
    reach add header t

end MystNotebook.Toml
