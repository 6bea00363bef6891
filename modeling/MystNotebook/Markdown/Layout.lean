import MystNotebook.Text.Line
import MystNotebook.Document.Node

/-! How a text that has been written apart is set into its surroundings: line by line behind a quote
mark, a list marker or a definition mark, or inside a table cell. -/
namespace MystNotebook.Markdown
open Text

def bodyLines (body : List Char) : List (List Char) := pieces (trimNewlines body)

def quoteLine (line : List Char) : List Char :=
  if line.isEmpty then ['>', '\n'] else ['>', ' '] ++ line ++ ['\n']

def quoteText (body : List Char) : List Char := (bodyLines body).flatMap quoteLine

/-- A line below the first, which an empty line needs no indent for. -/
def indentedLine (width : Nat) (line : List Char) : List Char :=
  if line.isEmpty then ['\n'] else List.replicate width ' ' ++ line ++ ['\n']

def itemText (marker body : List Char) : List Char :=
  match bodyLines body with
  | [] => []
  | line :: rest =>
    trimEnd marker ++ (if line.isEmpty then [] else ' ' :: line) ++ ['\n'] ++
      rest.flatMap (indentedLine marker.length)

def descriptionText (body : List Char) : List Char :=
  match bodyLines body with
  | [] => []
  | line :: rest => [':', ' '] ++ line ++ ['\n'] ++ rest.flatMap (indentedLine 2)

def cellText (content : List Char) : List Char :=
  replace '|' ['\\', '|'] (replace '\n' [' '] (trimEnd content))

def alignMark : Option Align → List Char
  | some .left => ":---|".toList
  | some .center => ":--:|".toList
  | some .right => "---:|".toList
  | none => "----|".toList

/-- The line below the first row; a column without an entry has no alignment. -/
def separatorText (columns : Nat) (align : List (Option Align)) : List Char :=
  ['|'] ++ (List.range columns).flatMap (fun i => alignMark (align[i]?.getD none)) ++ ['\n']

def missingCells (count : Nat) : List Char := (List.replicate count [' ', '|']).flatten

def commentText (value : List Char) : List Char :=
  (lines value).flatMap fun line => ['%', ' '] ++ line ++ ['\n']

def targetText (label : String) : List Char := ['('] ++ label.toList ++ [')', '=', '\n']

end MystNotebook.Markdown
