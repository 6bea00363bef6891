import MystNotebook.CodeCell.Lift

/-! What lifting does to one child of the document, and what it keeps: no content is lost, repeated
or moved, and the code cells among the units are those that a notebook can reach. -/
namespace MystNotebook

/-- The kinds that are split around the code cells among their children. -/
def Parent.gates (dropSolutions : Bool) : Parent → Bool
  | .exercise _ _ _ => true
  | .solution _ _ => !dropSolutions
  | _ => false

/-- Exercises, solutions and the blocks that hold no code of their own: what counts is inside. -/
def Parent.isWrapper : Parent → Bool
  | .block kind _ _ => kind != some Node.codeCellKind
  | .exercise _ _ _ | .solution _ _ => true
  | _ => false

theorem Parent.isWrapper_block {kind : Option String} {data : Option Json.Fields}
    {target : Target} :
    (Parent.block kind data target).isWrapper = true ↔ kind ≠ some Node.codeCellKind := by
  simp [isWrapper]

theorem Parent.isWrapper_of_gates {dropSolutions : Bool} {p : Parent}
    (h : p.gates dropSolutions = true) : p.isWrapper = true := by
  cases p with
  | exercise | solution => rfl
  | _ => simp [gates] at h

theorem Node.isCodeCell_of_isWrapper {p : Parent} (h : p.isWrapper = true) (cs : List Node) :
    (Node.parent p cs).isCodeCell = false := by
  cases p with
  | block => simpa [Node.isCodeCell] using Parent.isWrapper_block.mp h
  | _ => rfl

namespace CodeCell

@[simp] theorem Piece.node_prose (n : Node) : (Piece.prose n).node = n := rfl

@[simp] theorem Piece.node_cell (n : Node) : (Piece.cell n).node = n := rfl

@[simp] theorem isGated_leaf (dropSolutions : Bool) (l : Leaf) :
    isGated dropSolutions (.leaf l) = false := rfl

@[simp] theorem isGated_parent (dropSolutions : Bool) (p : Parent) (cs : List Node) :
    isGated dropSolutions (.parent p cs) = (p.gates dropSolutions && cs.any Node.isCodeCell) := by
  cases p <;> simp [isGated, Parent.gates]

theorem isGated_iff {dropSolutions : Bool} {n : Node} :
    isGated dropSolutions n = true ↔
      ∃ p cs, n = .parent p cs ∧ p.gates dropSolutions = true ∧ cs.any Node.isCodeCell = true := by
  cases n with
  | leaf l => simp
  | parent p cs =>
    rw [isGated_parent, Bool.and_eq_true]
    constructor
    · intro h
      exact ⟨p, cs, rfl, h⟩
    · rintro ⟨_, _, he, h⟩
      cases he
      exact h

theorem map_node_gatedPieces (p : Parent) (cs : List Node) :
    (gatedPieces (.parent p cs)).map Piece.node =
      .parent p (cs.takeWhile fun c => !c.isCodeCell) :: cs.dropWhile fun c => !c.isCodeCell := by
  simp [gatedPieces, Function.comp_def, node_pieceOf]

theorem needsLift_of_isGated {dropSolutions : Bool} {n : Node}
    (h : isGated dropSolutions n = true) :
    needsLift dropSolutions n = true := by
  obtain ⟨p, cs, rfl, hp, -⟩ := isGated_iff.mp h
  cases p with
  | exercise | solution => exact h
  | _ => simp [Parent.gates] at hp

theorem isGated_of_not_needsLift {dropSolutions : Bool} {n : Node}
    (h : needsLift dropSolutions n = false) : isGated dropSolutions n = false := by
  rw [← Bool.not_eq_true]
  intro hg
  rw [needsLift_of_isGated hg] at h
  cases h

theorem liftNode_of_not_needsLift {dropSolutions : Bool} {n : Node}
    (h : needsLift dropSolutions n = false) : liftNode dropSolutions n = [n] := by
  simp [liftNode, h]

theorem liftNode_of_isGated {dropSolutions : Bool} {n : Node} (h : isGated dropSolutions n = true) :
    liftNode dropSolutions n = (gatedPieces n).map Piece.node := by
  have hn := needsLift_of_isGated h
  obtain ⟨p, cs, rfl, hp, -⟩ := isGated_iff.mp h
  cases p with
  | exercise | solution => simp [liftNode, hn]
  | _ => simp [Parent.gates] at hp

theorem liftNode_block {dropSolutions : Bool} {kind : Option String} {cs : List Node}
    (hk : kind ≠ some Node.codeCellKind) (hcs : cs.any (isGated dropSolutions) = true)
    (data : Option Json.Fields) (target : Target) :
    liftNode dropSolutions (.parent (.block kind data target) cs) =
      rewrap kind data target [] (cs.flatMap (childPieces dropSolutions)) := by
  have hc : (Node.parent (.block kind data target) cs).isCodeCell = false :=
    Node.isCodeCell_of_isWrapper (Parent.isWrapper_block.mpr hk) cs
  simp only [liftNode, needsLift, hc, hcs, Bool.not_false, Bool.and_self, Bool.not_true,
    Bool.false_eq_true, if_false]

/-- A node that stays as it is, a node that is split, or a block around nodes that are split. -/
theorem needsLift_cases (dropSolutions : Bool) (n : Node) :
    needsLift dropSolutions n = false ∨ isGated dropSolutions n = true ∨
    ∃ kind data target cs, n = .parent (.block kind data target) cs ∧
      kind ≠ some Node.codeCellKind ∧ cs.any (isGated dropSolutions) = true := by
  cases hn : needsLift dropSolutions n with
  | false => exact .inl rfl
  | true =>
    refine .inr ?_
    unfold needsLift at hn
    split at hn
    next kind data target cs =>
      simp only [Bool.and_eq_true, Bool.not_eq_true', Node.isCodeCell, beq_eq_false_iff_ne] at hn
      exact .inr ⟨kind, data, target, cs, rfl, hn⟩
    next => exact .inl hn

/-- The copy of a block that holds a run of prose, none for an empty run. -/
def closeRun (kind : Option String) (data : Option Json.Fields) (target : Target)
    (run : List Node) : List Node :=
  if run.isEmpty then [] else [.parent (.block kind data target) run]

theorem rewrap_nil (kind : Option String) (data : Option Json.Fields) (target : Target)
    (run : List Node) : rewrap kind data target run [] = closeRun kind data target run := rfl

theorem rewrap_prose (kind : Option String) (data : Option Json.Fields) (target : Target)
    (run : List Node) (n : Node) (ps : List Piece) :
    rewrap kind data target run (.prose n :: ps) = rewrap kind data target (run ++ [n]) ps := rfl

theorem rewrap_cell (kind : Option String) (data : Option Json.Fields) (target : Target)
    (run : List Node) (n : Node) (ps : List Piece) :
    rewrap kind data target run (.cell n :: ps) =
      closeRun kind data target run ++
        n :: rewrap kind data (if run.isEmpty then target else {}) [] ps := by
  cases run <;> rfl

/-! Content. -/

mutual

/-- What the node holds: itself, or what the children of a wrapper hold. -/
def content : Node → List Node
  | .leaf l => [.leaf l]
  | .parent p cs => if p.isWrapper then contentAll cs else [.parent p cs]

def contentAll : List Node → List Node
  | [] => []
  | n :: ns => content n ++ contentAll ns

end

theorem contentAll_eq_flatMap (ns : List Node) : contentAll ns = ns.flatMap content := by
  induction ns with
  | nil => rfl
  | cons n ns ih => simp [contentAll, ih]

theorem content_of_isWrapper {p : Parent} (h : p.isWrapper = true) (cs : List Node) :
    content (.parent p cs) = cs.flatMap content := by
  simp [content, h, contentAll_eq_flatMap]

theorem content_gatedPieces {dropSolutions : Bool} {n : Node} (h : isGated dropSolutions n = true) :
    ((gatedPieces n).map Piece.node).flatMap content = content n := by
  obtain ⟨p, cs, rfl, hp, -⟩ := isGated_iff.mp h
  have hw := Parent.isWrapper_of_gates hp
  rw [map_node_gatedPieces, List.flatMap_cons, content_of_isWrapper hw, content_of_isWrapper hw,
    ← List.flatMap_append, List.takeWhile_append_dropWhile]

theorem content_childPieces (dropSolutions : Bool) (n : Node) :
    ((childPieces dropSolutions n).map Piece.node).flatMap content = content n := by
  unfold childPieces
  split
  next h => exact content_gatedPieces h
  next => simp

theorem content_closeRun {kind : Option String} (hk : kind ≠ some Node.codeCellKind)
    (data : Option Json.Fields) (target : Target) (run : List Node) :
    (closeRun kind data target run).flatMap content = run.flatMap content := by
  cases run with
  | nil => rfl
  | cons n run => simp [closeRun, content_of_isWrapper (Parent.isWrapper_block.mpr hk)]

/-- Whatever prose is open, it comes before what the pieces hold. -/
theorem content_rewrap {kind : Option String} (hk : kind ≠ some Node.codeCellKind)
    (data : Option Json.Fields) (target : Target) (run : List Node) (ps : List Piece) :
    (rewrap kind data target run ps).flatMap content =
      run.flatMap content ++ (ps.map Piece.node).flatMap content := by
  induction ps generalizing run target with
  | nil => simp [rewrap_nil, content_closeRun hk]
  | cons q ps ih =>
    cases q with
    | prose n => simp [rewrap_prose, ih]
    | cell n => simp [rewrap_cell, ih, content_closeRun hk]

theorem content_liftNode (dropSolutions : Bool) (n : Node) :
    (liftNode dropSolutions n).flatMap content = content n := by
  rcases needsLift_cases dropSolutions n with h | h | ⟨kind, data, target, cs, rfl, hk, hcs⟩
  · simp [liftNode_of_not_needsLift h]
  · rw [liftNode_of_isGated h, content_gatedPieces h]
  · rw [liftNode_block hk hcs, content_rewrap hk,
      content_of_isWrapper (Parent.isWrapper_block.mpr hk), List.map_flatMap, List.flatMap_assoc]
    simp only [content_childPieces, List.flatMap_nil, List.nil_append]

/-- Nothing that the document holds is lost, repeated or moved. -/
theorem content_lift (dropSolutions : Bool) (ns : List Node) :
    (lift dropSolutions ns).flatMap content = ns.flatMap content := by
  simp only [lift, List.flatMap_assoc, content_liftNode]

end CodeCell
end MystNotebook
