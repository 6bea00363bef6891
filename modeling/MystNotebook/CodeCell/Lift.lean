import MystNotebook.Document.Node

/-! Code cells inside exercises and solutions, brought to the top of the document. A notebook can
only run the cells at the top, so the exercise is split around them: it keeps what stands before its
first cell, and the rest follows bare. -/
namespace MystNotebook.CodeCell

/-- What a split leaves: prose, or a cell that goes to the top. -/
inductive Piece where
  | prose (node : Node)
  | cell (node : Node)
  deriving DecidableEq

def Piece.node : Piece → Node
  | .prose n | .cell n => n

/-- An exercise, or a solution that is kept, with a code cell among its children. -/
def isGated (dropSolutions : Bool) : Node → Bool
  | .parent (.exercise _ _ _) cs => cs.any Node.isCodeCell
  | .parent (.solution _ _) cs => !dropSolutions && cs.any Node.isCodeCell
  | _ => false

def needsLift (dropSolutions : Bool) : Node → Bool
  | .parent (.block kind data target) cs =>
    !(Node.parent (.block kind data target) cs).isCodeCell && cs.any (isGated dropSolutions)
  | n => isGated dropSolutions n

def pieceOf (n : Node) : Piece := if n.isCodeCell then .cell n else .prose n

theorem node_pieceOf (n : Node) : (pieceOf n).node = n := by
  unfold pieceOf
  split <;> rfl

/-- The node with what stands before the first cell, and then its other children. -/
def gatedPieces : Node → List Piece
  | .leaf l => [.prose (.leaf l)]
  | .parent p cs =>
    .prose (.parent p (cs.takeWhile fun c => !c.isCodeCell)) ::
      (cs.dropWhile fun c => !c.isCodeCell).map pieceOf

/-- The pieces of a child of a block; a child that is not split is prose, whatever it is. -/
def childPieces (dropSolutions : Bool) (n : Node) : List Piece :=
  if isGated dropSolutions n then gatedPieces n else [.prose n]

/-- Sets the prose between cells in copies of the block, of which the first is the target of
references. `run` is the prose that is still open. -/
def rewrap (kind : Option String) (data : Option Json.Fields) (target : Target) (run : List Node) :
    List Piece → List Node
  | [] => if run.isEmpty then [] else [.parent (.block kind data target) run]
  | .prose n :: rest => rewrap kind data target (run ++ [n]) rest
  | .cell n :: rest =>
    if run.isEmpty then n :: rewrap kind data target [] rest
    else .parent (.block kind data target) run :: n :: rewrap kind data {} [] rest

def liftNode (dropSolutions : Bool) (n : Node) : List Node :=
  if !needsLift dropSolutions n then [n]
  else match n with
    | .parent (.block kind data target) cs =>
      rewrap kind data target [] (cs.flatMap (childPieces dropSolutions))
    | n => (gatedPieces n).map Piece.node

/-- The units of a notebook. -/
def lift (dropSolutions : Bool) (ns : List Node) : List Node := ns.flatMap (liftNode dropSolutions)

/-- Whether `lift` leaves everything as it is. -/
def isLifted (dropSolutions : Bool) (ns : List Node) : Bool := !ns.any (needsLift dropSolutions)

/-- What lifting answers: the units of the document, unless nothing in it had to be split. -/
inductive Lifting where
  | unchanged
  | split (units : List Node)
  deriving DecidableEq

/-- The units of a document with this answer. -/
def Lifting.units (ns : List Node) : Lifting → List Node
  | .unchanged => ns
  | .split units => units

/-- Looks first whether there is anything to split. -/
def lifting (dropSolutions : Bool) (ns : List Node) : Lifting :=
  if isLifted dropSolutions ns then .unchanged else .split (lift dropSolutions ns)

theorem lift_of_isLifted {dropSolutions : Bool} {ns : List Node}
    (h : isLifted dropSolutions ns = true) : lift dropSolutions ns = ns := by
  induction ns with
  | nil => rfl
  | cons n ns ih =>
    simp only [isLifted, List.any_cons, Bool.not_or, Bool.and_eq_true] at h
    have := ih (by simpa [isLifted] using h.2)
    simp only [lift, List.flatMap_cons, liftNode, h.1, if_true] at this ⊢
    simp [this]

/-- The answer leads to the same units whether or not it was the short one. -/
@[simp] theorem units_lifting (dropSolutions : Bool) (ns : List Node) :
    (lifting dropSolutions ns).units ns = lift dropSolutions ns := by
  unfold lifting
  split
  next h => exact (lift_of_isLifted h).symm
  next => rfl

end MystNotebook.CodeCell
