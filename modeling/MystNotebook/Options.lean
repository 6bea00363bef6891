import MystNotebook.Attachment.Basic
import MystNotebook.Text.Line

/-! What an export can be asked for, and the names by which it is asked. -/
namespace MystNotebook

/-- The dialect of the Markdown cells. -/
inductive MarkdownFormat where
  | myst
  | commonMark
  deriving DecidableEq, Repr

/-- Images stay references, or local ones become attachments. -/
inductive ImageMode where
  | reference
  | attachment
  deriving DecidableEq, Repr

structure InvalidOption where
  option : String
  value : String
  expected : String
  deriving DecidableEq, Repr

def InvalidOption.message (e : InvalidOption) : String :=
  "invalid " ++ e.option ++ " value '" ++ e.value ++ "' (expected one of: " ++ e.expected ++ ")"

def MarkdownFormat.name : MarkdownFormat → String
  | .myst => "myst"
  | .commonMark => "commonmark"

/-- Capital letters count as small ones. -/
def MarkdownFormat.read (s : String) : Except InvalidOption MarkdownFormat :=
  if Text.sameLetters s "myst" then .ok .myst
  else if Text.sameLetters s "commonmark" then .ok .commonMark
  else .error ⟨"markdown", s, "myst, commonmark"⟩

def ImageMode.name : ImageMode → String
  | .reference => "reference"
  | .attachment => "attachment"

/-- Capital letters count as small ones. -/
def ImageMode.read (s : String) : Except InvalidOption ImageMode :=
  if Text.sameLetters s "reference" then .ok .reference
  else if Text.sameLetters s "attachment" then .ok .attachment
  else .error ⟨"images", s, "reference, attachment"⟩

/-- How one notebook treats images; attachments come from the images of its document. -/
inductive Images where
  | reference
  | attachment (images : ImageMap)

structure NotebookOptions where
  markdown : MarkdownFormat := .myst
  dropSolutions : Bool := false
  images : Images := .reference

/-- Solutions are only dropped on the way to CommonMark. -/
def NotebookOptions.dropsSolutions (o : NotebookOptions) : Bool :=
  o.markdown == .commonMark && o.dropSolutions

end MystNotebook
