import MystNotebook.Proofs.UnitCells

/-! The code of a notebook. A code cell is reachable at the top of the document, in an exercise or a
kept solution at the top, or in one that is a child of a block at the top; the notebook runs the
reachable cells, in the order of the document. -/
namespace MystNotebook
namespace CodeCell
open Node

/-- The code cells that are taken out of an exercise, or out of a solution that is kept. -/
def gatedCells (dropSolutions : Bool) : Node → List Node
  | .parent (.exercise _ _ _) cs => cs.filter isCodeCell
  | .parent (.solution _ _) cs => if dropSolutions then [] else cs.filter isCodeCell
  | _ => []

/-- The code cells that a notebook can reach in a node at the top. -/
def reachableCells (dropSolutions : Bool) : Node → List Node
  | .parent (.block kind data target) cs =>
    if kind = some codeCellKind then [.parent (.block kind data target) cs]
    else cs.flatMap (gatedCells dropSolutions)
  | n => gatedCells dropSolutions n

def codeValues : List Node → List String
  | [] => []
  | .leaf (.code c) :: ns => c.value :: codeValues ns
  | _ :: ns => codeValues ns

/-- The value of the first code among the children, empty without any. -/
def literalCode (cell : Node) : String := (codeValues cell.children).headD ""

theorem codeOf_eq_literalCode (cell : Node) : codeOf cell = literalCode cell := by
  simp only [codeOf, literalCode]
  induction cell.children with
  | nil => rfl
  | cons c cs ih =>
    cases c with
    | leaf l => cases l <;> simp_all [codeValues]
    | parent p ds => simpa [codeValues] using ih

theorem gatedCells_of_gates {dropSolutions : Bool} {p : Parent} (h : p.gates dropSolutions = true)
    (cs : List Node) : gatedCells dropSolutions (.parent p cs) = cs.filter isCodeCell := by
  cases p with
  | exercise => rfl
  | solution =>
    have hkept : dropSolutions = false := by simpa [Parent.gates] using h
    simp [gatedCells, hkept]
  | _ => simp [Parent.gates] at h

theorem gatedCells_of_not_gates {dropSolutions : Bool} {p : Parent}
    (h : p.gates dropSolutions = false) (cs : List Node) :
    gatedCells dropSolutions (.parent p cs) = [] := by
  cases p with
  | exercise => simp [Parent.gates] at h
  | solution =>
    have hdropped : dropSolutions = true := by simpa [Parent.gates] using h
    simp [gatedCells, hdropped]
  | _ => rfl

theorem gatedCells_of_not_isGated {dropSolutions : Bool} {n : Node}
    (h : isGated dropSolutions n = false) : gatedCells dropSolutions n = [] := by
  cases n with
  | leaf l => rfl
  | parent p cs =>
    cases hp : p.gates dropSolutions with
    | true =>
      have hcs : cs.any isCodeCell = false := by simpa [hp] using h
      rw [gatedCells_of_gates hp, List.filter_eq_nil_iff]
      exact List.any_eq_false.mp hcs
    | false => exact gatedCells_of_not_gates hp cs

theorem filter_gatedCells (dropSolutions : Bool) (n : Node) :
    (gatedCells dropSolutions n).filter isCodeCell = gatedCells dropSolutions n := by
  unfold gatedCells
  split
  · simp
  · split <;> simp
  · rfl

theorem reachableCells_of_isGated {dropSolutions : Bool} {n : Node}
    (h : isGated dropSolutions n = true) :
    reachableCells dropSolutions n = gatedCells dropSolutions n := by
  obtain ⟨p, cs, rfl, hp, -⟩ := isGated_iff.mp h
  cases p with
  | block => simp [Parent.gates] at hp
  | _ => rfl

theorem reachableCells_of_not_needsLift {dropSolutions : Bool} {n : Node}
    (h : needsLift dropSolutions n = false) :
    reachableCells dropSolutions n = [n].filter isCodeCell := by
  cases n with
  | leaf l => rfl
  | parent p cs =>
    cases p with
    | block kind data target =>
      by_cases hk : kind = some codeCellKind
      · simp [reachableCells, hk, isCodeCell]
      · have hcs : ∀ c ∈ cs, isGated dropSolutions c = false := by
          simpa [needsLift, isCodeCell, hk] using h
        have hcells : cs.flatMap (gatedCells dropSolutions) = [] :=
          List.flatMap_eq_nil_iff.mpr fun c hc => gatedCells_of_not_isGated (hcs c hc)
        simp [reachableCells, hk, isCodeCell, hcells]
    | _ => exact gatedCells_of_not_isGated (isGated_of_not_needsLift h)

/-! Cells among the pieces. -/

def Piece.cell? : Piece → Option Node
  | .prose _ => none
  | .cell n => some n

theorem cells_map_pieceOf (ns : List Node) :
    (ns.map pieceOf).filterMap Piece.cell? = ns.filter isCodeCell := by
  induction ns with
  | nil => rfl
  | cons n ns ih =>
    by_cases h : n.isCodeCell = true <;>
      simp [List.filterMap_cons, pieceOf, Piece.cell?, h, ih]

theorem filter_isCodeCell_dropWhile (cs : List Node) :
    (cs.dropWhile fun c => !c.isCodeCell).filter isCodeCell = cs.filter isCodeCell := by
  induction cs with
  | nil => rfl
  | cons c cs ih => by_cases h : c.isCodeCell = true <;> simp [h, ih]

theorem cells_gatedPieces {dropSolutions : Bool} {n : Node} (h : isGated dropSolutions n = true) :
    (gatedPieces n).filterMap Piece.cell? = gatedCells dropSolutions n := by
  obtain ⟨p, cs, rfl, hp, -⟩ := isGated_iff.mp h
  rw [gatedPieces, List.filterMap_cons_none rfl, cells_map_pieceOf, filter_isCodeCell_dropWhile,
    gatedCells_of_gates hp]

theorem cells_childPieces (dropSolutions : Bool) (n : Node) :
    (childPieces dropSolutions n).filterMap Piece.cell? = gatedCells dropSolutions n := by
  unfold childPieces
  split
  next h => exact cells_gatedPieces h
  next h => simp [Piece.cell?, gatedCells_of_not_isGated (by simpa using h)]

theorem filter_isCodeCell_closeRun {kind : Option String} (hk : kind ≠ some codeCellKind)
    (data : Option Json.Fields) (target : Target) (run : List Node) :
    (closeRun kind data target run).filter isCodeCell = [] := by
  have hc : (Node.parent (.block kind data target) run).isCodeCell = false :=
    isCodeCell_of_isWrapper (Parent.isWrapper_block.mpr hk) run
  unfold closeRun
  split <;> simp [hc]

theorem filter_isCodeCell_rewrap {kind : Option String} (hk : kind ≠ some codeCellKind)
    (data : Option Json.Fields) (target : Target) (run : List Node) (ps : List Piece) :
    (rewrap kind data target run ps).filter isCodeCell =
      (ps.filterMap Piece.cell?).filter isCodeCell := by
  induction ps generalizing run target with
  | nil => rw [rewrap_nil, filter_isCodeCell_closeRun hk]; rfl
  | cons q ps ih =>
    cases q with
    | prose n => rw [rewrap_prose, ih, List.filterMap_cons_none rfl]
    | cell n =>
      have hcells : (Piece.cell n :: ps).filterMap Piece.cell? = n :: ps.filterMap Piece.cell? :=
        List.filterMap_cons_some rfl
      rw [rewrap_cell, List.filter_append, filter_isCodeCell_closeRun hk, List.nil_append, hcells,
        List.filter_cons, List.filter_cons, ih]

theorem filter_isCodeCell_liftNode (dropSolutions : Bool) (n : Node) :
    (liftNode dropSolutions n).filter isCodeCell = reachableCells dropSolutions n := by
  rcases needsLift_cases dropSolutions n with h | h | ⟨kind, data, target, cs, rfl, hk, hcs⟩
  · rw [liftNode_of_not_needsLift h, reachableCells_of_not_needsLift h]
  · rw [liftNode_of_isGated h, reachableCells_of_isGated h]
    obtain ⟨p, cs, rfl, hp, -⟩ := isGated_iff.mp h
    have hc (cs : List Node) : (Node.parent p cs).isCodeCell = false :=
      isCodeCell_of_isWrapper (Parent.isWrapper_of_gates hp) cs
    rw [map_node_gatedPieces, List.filter_cons_of_neg (by simp [hc]), filter_isCodeCell_dropWhile,
      gatedCells_of_gates hp]
  · rw [liftNode_block hk hcs, filter_isCodeCell_rewrap hk, List.filterMap_flatMap]
    simp only [cells_childPieces, reachableCells, hk, if_false, List.filter_flatMap,
      filter_gatedCells]

theorem filter_isCodeCell_lift (dropSolutions : Bool) (ns : List Node) :
    (lift dropSolutions ns).filter isCodeCell = ns.flatMap (reachableCells dropSolutions) := by
  simp only [lift, List.filter_flatMap, filter_isCodeCell_liftNode]

end CodeCell

namespace Notebook
open CodeCell

/-- The sources of the code cells, in order. -/
def codeSources (notebook : Notebook) : List String :=
  (notebook.cells.filter Cell.isCode).map Cell.sourceText

theorem isCode_markdownCell (images : Images) (text : String) :
    (markdownCell images text).isCode = false := by
  cases images <;> rfl

/-- A unit adds one code cell if it holds code, and none otherwise, whatever its prose becomes. -/
theorem codeSources_unitCells (options : NotebookOptions) (unit : Node) :
    ((unitCells options unit).filter Cell.isCode).map Cell.sourceText =
      if unit.isCodeCell then [literalCode unit] else [] := by
  cases h : unit.isCodeCell with
  | true =>
    have hu : unitCells options unit = [.ofCode (codeOf unit)] := by
      simp [unitCells, ofUnit, codeCells, h]
    rw [hu, List.filter_cons_of_pos rfl, List.map_cons, Cell.sourceText_ofCode,
      codeOf_eq_literalCode]
    rfl
  | false =>
    simp only [unitCells, ofUnit, proseCells, h, Bool.false_eq_true, if_false]
    split <;> simp [isCode_markdownCell]

/-- The code cells of a notebook are the reachable code cells of its document, each once, in order
and with its literal code. -/
theorem codeSources_ofDocument (options : NotebookOptions) (frontmatter : Option Frontmatter)
    (ns : List Node) :
    (ofDocument options frontmatter ns).1.codeSources =
      (ns.flatMap (reachableCells options.dropsSolutions)).map literalCode := by
  rw [ofDocument_eq, ← filter_isCodeCell_lift]
  simp only [codeSources, ofCells]
  induction lift options.dropsSolutions ns with
  | nil => rfl
  | cons unit units ih =>
    rw [List.flatMap_cons, List.filter_append, List.map_append, ih, codeSources_unitCells,
      List.filter_cons]
    split <;> simp

end Notebook
end MystNotebook
