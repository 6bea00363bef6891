import MystNotebook.Settings.Toml

/-! The smallest parts of TOML: blanks, comments and ends of lines, texts, and keys. Every reader
gives what it has read and the rest of the text; `steps` is the length of the text at the start. -/
namespace MystNotebook.Toml

abbrev Reader (α : Type) := List Char → Option (α × List Char)

def isSpace (c : Char) : Bool := c == ' ' || c == '\t'

def skipSpace (s : List Char) : List Char := s.dropWhile isSpace

/-- Controls other than the tab may not stand in a text. -/
def isControl (c : Char) : Bool := (c.toNat < 0x20 && c != '\t') || c.toNat == 0x7F

def skipComment : List Char → Option (List Char)
  | '#' :: s =>
    let rest := s.dropWhile fun c => !isControl c
    match rest with
    | [] | '\n' :: _ | '\r' :: '\n' :: _ => some rest
    | _ => none
  | s => some s

/-- The end of a line: blanks, a comment, and a newline or the end of the text. -/
def lineEnd (s : List Char) : Option (List Char) := do
  match ← skipComment (skipSpace s) with
  | [] => some []
  | '\n' :: rest => some rest
  | '\r' :: '\n' :: rest => some rest
  | _ => none

/-- Blanks, comments and newlines inside brackets. -/
def skipLines : Nat → List Char → Option (List Char)
  | 0, _ => none
  | steps + 1, s => do
    match ← skipComment (skipSpace s) with
    | '\n' :: rest => skipLines steps rest
    | '\r' :: '\n' :: rest => skipLines steps rest
    | rest => some rest

def hexDigit (c : Char) : Option Nat :=
  if c.isDigit then some (c.toNat - '0'.toNat)
  else if 'a' ≤ c ∧ c ≤ 'f' then some (c.toNat - 'a'.toNat + 10)
  else if 'A' ≤ c ∧ c ≤ 'F' then some (c.toNat - 'A'.toNat + 10)
  else none

def codePoint (digits : List Char) : Option Char := do
  let n ← digits.foldlM (fun n c => (hexDigit c).map (16 * n + ·)) 0
  if n < 0xD800 ∨ (0xDFFF < n ∧ n < 0x110000) then some (Char.ofNat n) else none

/-- A character by its code point in `width` digits. -/
def codeEscape (width : Nat) (s : List Char) : Option (Char × List Char) :=
  if s.length < width then none else (codePoint (s.take width)).map (·, s.drop width)

def escape : Reader Char
  | 'b' :: s => some ('\x08', s)
  | 't' :: s => some ('\t', s)
  | 'n' :: s => some ('\n', s)
  | 'f' :: s => some ('\x0c', s)
  | 'r' :: s => some ('\r', s)
  | 'e' :: s => some ('\x1b', s)
  | '"' :: s => some ('"', s)
  | '\\' :: s => some ('\\', s)
  | 'x' :: s => codeEscape 2 s
  | 'u' :: s => codeEscape 4 s
  | 'U' :: s => codeEscape 8 s
  | _ => none

/-- The rest of a text between double quotes; `read` holds it with the latest character first. -/
def basicString : Nat → List Char → Reader String
  | 0, _, _ => none
  | steps + 1, read, s =>
    match s with
    | '"' :: rest => some (String.ofList read.reverse, rest)
    | '\\' :: rest => do
      let (c, rest) ← escape rest
      basicString steps (c :: read) rest
    | c :: rest => if isControl c then none else basicString steps (c :: read) rest
    | [] => none

/-- The rest of a text between single quotes. -/
def literalString (s : List Char) : Option (String × List Char) :=
  let text := s.takeWhile fun c => c != '\'' && !isControl c
  match s.drop text.length with
  | '\'' :: rest => some (String.ofList text, rest)
  | _ => none

/-- Up to two quotes may stand right before the three that close a text. -/
def closeLong (quote : Char) (read : List Char) : List Char → Option (String × List Char)
  | a :: b :: c :: rest =>
    if a = quote ∧ b = quote ∧ c = quote then
      let more := (rest.takeWhile (· == quote)).take 2
      some (String.ofList (read.reverse ++ more), rest.drop more.length)
    else none
  | _ => none

/-- A carriage return is part of a newline only right before it. -/
def skipBlankLines : List Char → List Char
  | '\r' :: '\n' :: s => skipBlankLines s
  | c :: s => if isSpace c || c == '\n' then skipBlankLines s else c :: s
  | [] => []

/-- After a backslash at the end of a line: the next character that is no blank. -/
def skipFolded (s : List Char) : Option (List Char) :=
  match skipSpace s with
  | '\n' :: rest => some (skipBlankLines rest)
  | '\r' :: '\n' :: rest => some (skipBlankLines rest)
  | _ => none

/-- The rest of a text between three quotes; only double quotes have escapes, and newlines are kept
as they are. -/
def longString (quote : Char) : Nat → List Char → Reader String
  | 0, _, _ => none
  | steps + 1, read, s =>
    match closeLong quote read s with
    | some result => some result
    | none =>
      match s with
      | '\\' :: rest =>
        if quote = '"' then
          match skipFolded rest with
          | some rest => longString quote steps read rest
          | none => do
            let (c, rest) ← escape rest
            longString quote steps (c :: read) rest
        else longString quote steps ('\\' :: read) rest
      | '\r' :: '\n' :: rest => longString quote steps ('\n' :: '\r' :: read) rest
      | c :: rest =>
        if isControl c && c != '\n' then none else longString quote steps (c :: read) rest
      | [] => none

/-- A newline right after the opening quotes does not count. -/
def afterOpening : List Char → List Char
  | '\n' :: s => s
  | '\r' :: '\n' :: s => s
  | s => s

def isBareKey (c : Char) : Bool := c.isAlphanum || c == '_' || c == '-'

def simpleKey (s : List Char) : Option (String × List Char) :=
  match s with
  | '"' :: rest => basicString s.length [] rest
  | '\'' :: rest => literalString rest
  | s =>
    let key := s.takeWhile isBareKey
    if key.isEmpty then none else some (String.ofList key, s.drop key.length)

/-- At most so many keys with dots between them. -/
def keysUpTo : Nat → Reader (List String)
  | 0, _ => none
  | most + 1, s => do
    let (key, rest) ← simpleKey (skipSpace s)
    match skipSpace rest with
    | '.' :: rest =>
      let (path, rest) ← keysUpTo most rest
      some (key :: path, rest)
    | rest => some ([key], rest)

/-- A path has at most 80 keys. -/
def keyPath : Reader (List String) := keysUpTo 80

end MystNotebook.Toml
