import MystNotebook.Attachment.Embed
import MystNotebook.CodeCell.Lift
import MystNotebook.CommonMark.Degrade
import MystNotebook.Markdown.Write
import MystNotebook.Notebook.Basic

/-! Documents as notebooks. The lifted units of a document become cells one by one: a code cell for
a unit that holds code, and for any other unit a Markdown cell unless it would be blank. -/
namespace MystNotebook

/-- How the nodes of a Markdown cell become text. -/
abbrev Serializer (ε : Type) := List Node → Except ε (String × List Markdown.Diagnostic)

/-- Documents as MyST Markdown, which never fails. -/
def mystSerializer (ε : Type) (separators : Bool) : Serializer ε := fun ns =>
  .ok (Markdown.write separators ns, Markdown.diagnose separators ns)

/-- A failure, and the place among the units where it happened. -/
structure SerializeError (ε : Type) where
  index : Nat
  source : ε
  deriving DecidableEq, Repr

def SerializeError.message {ε : Type} (e : SerializeError ε) : String :=
  "failed to serialize markdown for top-level unit " ++ toString e.index

/-- The text of a code cell: its first piece of code. -/
def codeOf (unit : Node) : String :=
  ((unit.children.findSome? fun
    | .leaf (.code c) => some c.value
    | _ => none)).getD ""

def isLineBreak (c : Char) : Bool := c == '\n' || c == '\r'

/-- The text without the empty lines and block breaks that it starts with. -/
def stripBlockBreaks (s : List Char) : List Char :=
  match s with
  | [] => []
  | c :: rest =>
    if isLineBreak c then stripBlockBreaks rest
    else match c, rest with
      | '+', '+' :: '+' :: line =>
        stripBlockBreaks ((line.dropWhile (· ≠ '\n')).drop 1)
      | _, _ => c :: rest
termination_by s.length
decreasing_by
  · simp
  · have h := (List.dropWhile_sublist (· ≠ '\n') (l := line)).length_le
    simp only [List.length_drop, List.length_cons]
    omega

namespace Notebook

/-- What a unit is written from. -/
def prepared (options : NotebookOptions) (unit : Node) : List Node :=
  if options.markdown = .commonMark then CommonMark.degrade options.dropSolutions [unit] else [unit]

def markdownCell (images : Images) (text : String) : Cell :=
  let text := String.ofList (stripBlockBreaks text.toList)
  match images with
  | .reference => .ofMarkdown text none
  | .attachment images =>
    let (text, attachments) := Attachment.embed images text
    .ofMarkdown text attachments

/-- The cells of units from `index` on, and what could not be expressed. -/
def cellsOf {ε : Type} (serialize : Serializer ε) (options : NotebookOptions) (index : Nat) :
    List Node → Except (SerializeError ε) (List Cell × List Markdown.Diagnostic)
  | [] => .ok ([], [])
  | unit :: units =>
    if unit.isCodeCell then do
      let (cells, diagnostics) ← cellsOf serialize options (index + 1) units
      .ok (.ofCode (codeOf unit) :: cells, diagnostics)
    else
      match serialize (prepared options unit) with
      | .error e => .error ⟨index, e⟩
      | .ok (text, own) => do
        let cell := markdownCell options.images text
        let (cells, diagnostics) ← cellsOf serialize options (index + 1) units
        .ok (if cell.isBlank then cells else cell :: cells, own ++ diagnostics)

/-- The notebook of a document, with a serializer that may fail. -/
def assemble {ε : Type} (serialize : Serializer ε) (options : NotebookOptions)
    (frontmatter : Option Frontmatter) (ns : List Node) :
    Except (SerializeError ε) (Notebook × List Markdown.Diagnostic) := do
  let units := (CodeCell.lifting options.dropsSolutions ns).units ns
  let (cells, diagnostics) ← cellsOf serialize options 0 units
  .ok (ofCells cells frontmatter, diagnostics)

/-- The notebook of a document in MyST Markdown or CommonMark. -/
def ofDocument (options : NotebookOptions) (frontmatter : Option Frontmatter) (ns : List Node) :
    Notebook × List Markdown.Diagnostic :=
  match assemble (mystSerializer Empty true) options frontmatter ns with
  | .ok result => result
  | .error e => nomatch e.source

end Notebook
end MystNotebook
