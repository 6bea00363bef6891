import MystNotebook.Settings.Basic
import MystNotebook.Text.Line

/-! The text of a settings file. Empty tables are left out, and a text is written in the first of
five forms that needs no escapes. -/
namespace MystNotebook.Settings
open Text

def hasControls (s : List Char) : Bool :=
  s.any fun c => (c.toNat < 0x20 && c != '\t' && c != '\n') || c.toNat == 0x7F

def hexDigits4 (n : Nat) : List Char :=
  let digits := (Nat.toDigits 16 n).map Char.toUpper
  List.replicate (4 - digits.length) '0' ++ digits

def escapedChar (c : Char) : List Char :=
  match c with
  | '\x08' => ['\\', 'b']
  | '\t' => ['\\', 't']
  | '\n' => ['\\', 'n']
  | '\x0c' => ['\\', 'f']
  | '\r' => ['\\', 'r']
  | '"' => ['\\', '"']
  | '\\' => ['\\', '\\']
  | c => if c.toNat < 0x20 || c.toNat == 0x7F then ['\\', 'u'] ++ hexDigits4 c.toNat else [c]

/-- Between three quotes a newline stands for itself, and so do quotes up to two in a row; `bare` of
them stand before the text. -/
def longEscaped (bare : Nat) : List Char → List Char
  | [] => []
  | '\n' :: s => '\n' :: longEscaped 0 s
  | '"' :: s => if bare < 2 then '"' :: longEscaped (bare + 1) s else '\\' :: '"' :: longEscaped 0 s
  | c :: s => escapedChar c ++ longEscaped 0 s

/-- A text of several lines begins on a line of its own. -/
def tripled (quote : Char) (newline : Bool) (s : List Char) : List Char :=
  [quote, quote, quote] ++ (if newline then ['\n'] else []) ++ s ++ [quote, quote, quote]

def stringText (text : String) : List Char :=
  let s := text.toList
  let controls := hasControls s
  let newline := s.contains '\n'
  let backslash := s.contains '\\'
  let singles := longestRun '\'' 0 s
  let doubles := longestRun '"' 0 s
  let short := ['"'] ++ s.flatMap escapedChar ++ ['"']
  let long := tripled '"' newline (longEscaped 0 s)
  if !controls && !backslash && doubles == 0 && !newline then short
  else if !controls && singles == 0 && !newline then ['\''] ++ s ++ ['\'']
  else if !controls && !backslash && doubles ≤ 2 then long
  else if !controls && singles ≤ 2 then tripled '\'' newline s
  else if newline then long
  else short

def line (key : String) (value : Option (List Char)) : List Char :=
  match value with
  | some v => key.toList ++ " = ".toList ++ v ++ ['\n']
  | none => []

def flagText (b : Bool) : List Char := if b then "true".toList else "false".toList

/-- A table under its header, nothing if it has no lines. -/
def tableText (name : String) (lines : List Char) : List (List Char) :=
  if lines.isEmpty then [] else [['['] ++ name.toList ++ [']', '\n'] ++ lines]

def tables (s : Settings) : List (List Char) :=
  tableText "markdown"
      (line "format" (s.markdown.format.map stringText) ++
        line "drop_solutions" (s.markdown.dropSolutions.map flagText)) ++
    tableText "images"
      (line "mode" (s.images.mode.map stringText) ++
        line "source_root" (s.images.sourceRoot.map fun p => stringText p.text)) ++
    tableText "batch"
      (line "recursive" (s.batch.recursive.map flagText) ++
        line "jobs" (s.batch.jobs.map fun n => (toString n).toList))

/-- The settings under a line that names their schema. -/
def print (s : Settings) : String :=
  "#:schema " ++ schemaUrl ++ "\n\n" ++
    "\n".intercalate ((tables s).map String.ofList)

end MystNotebook.Settings
