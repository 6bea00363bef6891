import MystNotebook.Document.Node
import MystNotebook.Text.Line

/-! Links and images as inline Markdown. -/
namespace MystNotebook.Markdown
open Text

def escapeBrackets (s : List Char) : List Char :=
  replace ']' ['\\', ']'] (replace '[' ['\\', '['] s)

def needsAngles (url : List Char) : Bool := url.any fun c => isBlank c || c == '<' || c == '>'

def escapeAngles (url : List Char) : List Char :=
  replace '>' ['\\', '>'] (replace '<' ['\\', '<'] url)

def escapeParentheses (url : List Char) : List Char :=
  replace ')' ['\\', ')'] (replace '(' ['\\', '('] url)

/-- A destination with blanks or angle brackets stands between angle brackets, after `scheme`. -/
def schemedDestination (scheme url : List Char) : List Char :=
  if needsAngles url then ['<'] ++ scheme ++ escapeAngles url ++ ['>']
  else scheme ++ escapeParentheses url

def destination (url : List Char) : List Char := schemedDestination [] url

def titleText : Option String → List Char
  | none => []
  | some title => [' ', '"'] ++ replace '"' ['\\', '"'] title.toList ++ ['"']

/-- What follows the text of a link. -/
def linkEnd (url : List Char) (title : Option String) : List Char :=
  [']', '('] ++ destination url ++ titleText title ++ [')']

def imageText (i : Image) : List Char :=
  ['!', '['] ++ escapeBrackets (i.alt.getD "").toList ++ linkEnd i.url.toList i.title

end MystNotebook.Markdown
