import MystNotebook.Settings.TomlScalar

/-! Reading TOML: a document line by line, where values may go on over several lines. `steps` is the
length of the text at the start. -/
namespace MystNotebook.Toml

mutual

/-- A value in which at most `room` brackets and braces may be open at once. -/
def value : Nat → Nat → Reader Value
  | 0, _, _ => none
  | steps + 1, room, s =>
    match s with
    | '"' :: '"' :: '"' :: rest =>
      (longString '"' s.length [] (afterOpening rest)).map fun (t, rest) => (.string t, rest)
    | '"' :: rest => (basicString s.length [] rest).map fun (t, rest) => (.string t, rest)
    | '\'' :: '\'' :: '\'' :: rest =>
      (longString '\'' s.length [] (afterOpening rest)).map fun (t, rest) => (.string t, rest)
    | '\'' :: rest => (literalString rest).map fun (t, rest) => (.string t, rest)
    | '[' :: rest => if room = 0 then none else items steps (room - 1) [] rest
    | '\x7b' :: rest => if room = 0 then none else fields steps (room - 1) [] rest
    | s => scalar s

/-- The rest of an array. -/
def items : Nat → Nat → List Value → Reader Value
  | 0, _, _, _ => none
  | steps + 1, room, read, s => do
    let s ← skipLines s.length.succ s
    match s with
    | ']' :: rest => some (.array read.reverse, rest)
    | s =>
      let (v, rest) ← value steps room s
      let rest ← skipLines rest.length.succ rest
      match rest with
      | ',' :: rest => items steps room (v :: read) rest
      | ']' :: rest => some (.array (v :: read).reverse, rest)
      | _ => none

/-- The rest of a table between braces. -/
def fields : Nat → Nat → Table → Reader Value
  | 0, _, _, _ => none
  | steps + 1, room, read, s => do
    match ← skipLines s.length.succ s with
    | '\x7d' :: rest => some (.table .inline read, rest)
    | s =>
      let (path, rest) ← keyPath s
      match rest with
      | '=' :: rest =>
        let (v, rest) ← value steps room (skipSpace rest)
        let read ← insert v path read
        match ← skipLines rest.length.succ rest with
        | ',' :: rest => fields steps room read rest
        | '\x7d' :: rest => some (.table .inline read, rest)
        | _ => none
      | _ => none

end

/-- Eighty brackets and braces may be open at once. -/
def maxOpen : Nat := 80

/-- Reads lines into a table; `header` is the path of the header above them. -/
def readLines : Nat → List String → Table → List Char → Option Table
  | 0, _, t, s => if s.isEmpty then some t else none
  | steps + 1, header, t, s =>
    match skipSpace s with
    | [] => some t
    | '[' :: '[' :: rest => do
      let (path, rest) ← keyPath rest
      match rest with
      | ']' :: ']' :: rest =>
        readLines steps path (← reach openItem path t) (← lineEnd rest)
      | _ => none
    | '[' :: rest => do
      let (path, rest) ← keyPath rest
      match rest with
      | ']' :: rest => readLines steps path (← reach openTable path t) (← lineEnd rest)
      | _ => none
    | c :: rest =>
      if c = '#' ∨ c = '\n' ∨ c = '\r' then do
        readLines steps header t (← lineEnd (c :: rest))
      else do
        let (path, rest) ← keyPath (c :: rest)
        match rest with
        | '=' :: rest =>
          let (v, rest) ← value steps maxOpen (skipSpace rest)
          readLines steps header (← insertUnder header path v t) (← lineEnd rest)
        | _ => none

/-- A byte order mark may stand in front. -/
def withoutMark : List Char → List Char
  | '\ufeff' :: s => s
  | s => s

def read (text : String) : Option Table :=
  let s := withoutMark text.toList
  readLines (s.length + 1) [] [] s

end MystNotebook.Toml
