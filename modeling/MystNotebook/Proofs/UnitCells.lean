import MystNotebook.Notebook.Assemble
import MystNotebook.Proofs.BlockBreaks
import MystNotebook.Proofs.LiftedUnits

/-! The cells of a notebook, unit by unit: every unit of the lifted document adds its own cells and
reports, and nothing else does. -/
namespace MystNotebook

namespace Markdown

theorem draftOf_nil (separators : Bool) : draftOf separators [] = {} := rfl

theorem draftOf_emptyBlock (separators : Bool) (kind : Option String)
    (data : Option Json.Fields) :
    draftOf separators [.parent (.block kind data {}) []] =
      ({} : Draft).push (blockBreak separators false (.parent (.block kind data {}) [])) := by
  simp [draftOf, writeTop, Draft.asBlock, isInline, writeNode, writeBlocks, Draft.target,
    Draft.newline, Draft.push]

end Markdown

namespace Notebook

/-- What a unit adds: `code` of its source if it is a code cell, otherwise `prose` of the nodes from
which it is written. -/
def ofUnit {β : Type} (code : String → List β) (prose : List Node → List β)
    (prepare : Node → List Node) (unit : Node) : List β :=
  if unit.isCodeCell then code (codeOf unit) else prose (prepare unit)

def codeCells (source : String) : List Cell := [.ofCode source]

/-- One cell, or none if it would be blank. -/
def proseCells (images : Images) (ns : List Node) : List Cell :=
  let cell := markdownCell images (Markdown.write true ns)
  if cell.isBlank then [] else [cell]

theorem markdownCell_of_strip {text : String} (h : stripBlockBreaks text.toList = [])
    (images : Images) : markdownCell images text = .markdown [] none := by
  have hempty : Cell.ofMarkdown (String.ofList []) none = .markdown [] none := by
    simp [Cell.ofMarkdown, Cell.splitSource, Text.trimNewlines, Text.dropEndWhile, Text.fullLines]
  cases images with
  | reference => simp [markdownCell, h, hempty]
  | attachment images =>
    have he : Attachment.embed images (String.ofList []) = (String.ofList [], none) := by
      simp [Attachment.embed, Attachment.segments, Attachment.redirect, Attachments.isEmpty,
        Attachments.empty]
    simp [markdownCell, h, he, hempty]

/-- A text of nothing but block breaks makes no cell. -/
theorem proseCells_of_strip {ns : List Node}
    (h : stripBlockBreaks (Markdown.write true ns).toList = []) (images : Images) :
    proseCells images ns = [] := by
  simp [proseCells, markdownCell_of_strip h, Cell.isBlank, Cell.isCode, Cell.source]

def unitCells (options : NotebookOptions) : Node → List Cell :=
  ofUnit codeCells (proseCells options.images) (prepared options)

def unitDiagnostics (options : NotebookOptions) : Node → List Markdown.Diagnostic :=
  ofUnit (fun _ => []) (Markdown.diagnose true) (prepared options)

theorem cellsOf_mystSerializer (ε : Type) (options : NotebookOptions) (index : Nat)
    (units : List Node) :
    cellsOf (mystSerializer ε true) options index units =
      .ok (units.flatMap (unitCells options), units.flatMap (unitDiagnostics options)) := by
  induction units generalizing index with
  | nil => rfl
  | cons unit units ih =>
    by_cases hc : unit.isCodeCell = true
    · simp [cellsOf, hc, ih, unitCells, unitDiagnostics, ofUnit, codeCells, bind, Except.bind]
    · simp only [cellsOf, hc, mystSerializer, ih, bind, Except.bind, List.flatMap_cons, unitCells,
        unitDiagnostics, ofUnit, proseCells, Bool.false_eq_true, if_false]
      split <;> simp [*]

theorem ofDocument_eq (options : NotebookOptions) (frontmatter : Option Frontmatter)
    (ns : List Node) :
    ofDocument options frontmatter ns =
      (ofCells ((CodeCell.lift options.dropsSolutions ns).flatMap (unitCells options)) frontmatter,
        (CodeCell.lift options.dropsSolutions ns).flatMap (unitDiagnostics options)) := by
  have h : assemble (mystSerializer Empty true) options frontmatter ns =
      .ok (ofCells ((CodeCell.lift options.dropsSolutions ns).flatMap (unitCells options))
          frontmatter,
        (CodeCell.lift options.dropsSolutions ns).flatMap (unitDiagnostics options)) := by
    simp [assemble, cellsOf_mystSerializer, bind, Except.bind]
  simp [ofDocument, h]

end Notebook
end MystNotebook
