import MystNotebook.Proofs.ReachableCode

/-! Lifting a document a second time. A split sets the children behind the first cell bare, and they
are not looked at again; so one pass settles a document exactly when none of these children would be
split where it has come to stand. -/
namespace MystNotebook.CodeCell
open Node

/-- The children from the first code cell on, which leave their parent when it is split. -/
def bareChildren (n : Node) : List Node := n.children.dropWhile fun c => !c.isCodeCell

/-- Whether the split of a node sets free what is to be split itself: at the top that is any unit
that needs lifting, in a copy of a block only another exercise or solution with a cell. -/
def leavesSplits (dropSolutions : Bool) (n : Node) : Bool :=
  if isGated dropSolutions n then (bareChildren n).any (needsLift dropSolutions)
  else needsLift dropSolutions n && n.children.any fun c =>
    isGated dropSolutions c && (bareChildren c).any (isGated dropSolutions)

theorem needsLift_of_isCodeCell {n : Node} (h : n.isCodeCell = true) (dropSolutions : Bool) :
    needsLift dropSolutions n = false := by
  cases n with
  | leaf l => rfl
  | parent p cs =>
    cases p with
    | block => simp [needsLift, h]
    | _ => simp [isCodeCell] at h

theorem needsLift_block {kind : Option String} (hk : kind ≠ some codeCellKind)
    (dropSolutions : Bool) (data : Option Json.Fields) (target : Target) (cs : List Node) :
    needsLift dropSolutions (.parent (.block kind data target) cs) =
      cs.any (isGated dropSolutions) := by
  have hc : (Node.parent (.block kind data target) cs).isCodeCell = false :=
    isCodeCell_of_isWrapper (Parent.isWrapper_block.mpr hk) cs
  simp [needsLift, hc]

/-! What a split keeps in its copy of the node is settled. -/

theorem any_isCodeCell_takeWhile (cs : List Node) :
    (cs.takeWhile fun c => !c.isCodeCell).any isCodeCell = false := by
  induction cs with
  | nil => rfl
  | cons c cs ih => by_cases h : c.isCodeCell = true <;> simp [h, ih]

theorem needsLift_keptPart {dropSolutions : Bool} {p : Parent}
    (hp : p.gates dropSolutions = true) (cs : List Node) :
    needsLift dropSolutions (.parent p (cs.takeWhile fun c => !c.isCodeCell)) = false := by
  have hg : isGated dropSolutions (.parent p (cs.takeWhile fun c => !c.isCodeCell)) = false := by
    rw [isGated_parent, any_isCodeCell_takeWhile, Bool.and_false]
  cases p with
  | exercise | solution => exact hg
  | _ => simp [Parent.gates] at hp

theorem any_needsLift_gatedPieces {dropSolutions : Bool} {n : Node}
    (h : isGated dropSolutions n = true) :
    ((gatedPieces n).map Piece.node).any (needsLift dropSolutions) =
      (bareChildren n).any (needsLift dropSolutions) := by
  obtain ⟨p, cs, rfl, hp, -⟩ := isGated_iff.mp h
  rw [map_node_gatedPieces, List.any_cons, needsLift_keptPart hp, Bool.false_or]
  rfl

theorem any_isGated_gatedPieces {dropSolutions : Bool} {n : Node}
    (h : isGated dropSolutions n = true) :
    ((gatedPieces n).map Piece.node).any (isGated dropSolutions) =
      (bareChildren n).any (isGated dropSolutions) := by
  obtain ⟨p, cs, rfl, hp, -⟩ := isGated_iff.mp h
  rw [map_node_gatedPieces, List.any_cons, isGated_of_not_needsLift (needsLift_keptPart hp cs),
    Bool.false_or]
  rfl

theorem any_isGated_childPieces (dropSolutions : Bool) (n : Node) :
    ((childPieces dropSolutions n).map Piece.node).any (isGated dropSolutions) =
      (isGated dropSolutions n && (bareChildren n).any (isGated dropSolutions)) := by
  unfold childPieces
  split
  next h => rw [any_isGated_gatedPieces h, h, Bool.true_and]
  next h => simp [h]

/-! The copies of a block need lifting for the pieces that they hold. -/

theorem isCodeCell_of_cell_mem_childPieces {dropSolutions : Bool} {n c : Node}
    (h : .cell c ∈ childPieces dropSolutions n) : c.isCodeCell = true := by
  have hcell {x : Node} (hx : pieceOf x = .cell c) : c.isCodeCell = true := by
    unfold pieceOf at hx
    split at hx
    next hc => exact Piece.cell.inj hx ▸ hc
    next => cases hx
  unfold childPieces at h
  split at h
  next hg =>
    obtain ⟨p, cs, rfl, -, -⟩ := isGated_iff.mp hg
    rw [gatedPieces, List.mem_cons, List.mem_map] at h
    rcases h with h | ⟨x, -, hx⟩
    · cases h
    · exact hcell hx
  next => simp at h

theorem any_needsLift_closeRun {kind : Option String} (hk : kind ≠ some codeCellKind)
    (dropSolutions : Bool) (data : Option Json.Fields) (target : Target) (run : List Node) :
    (closeRun kind data target run).any (needsLift dropSolutions) =
      run.any (isGated dropSolutions) := by
  cases run with
  | nil => rfl
  | cons n run => simp [closeRun, needsLift_block hk]

theorem any_needsLift_rewrap {kind : Option String} (hk : kind ≠ some codeCellKind)
    (dropSolutions : Bool) (data : Option Json.Fields) (target : Target) (run : List Node)
    {ps : List Piece} (hcells : ∀ n, .cell n ∈ ps → n.isCodeCell = true) :
    (rewrap kind data target run ps).any (needsLift dropSolutions) =
      (run.any (isGated dropSolutions) ||
        (ps.map Piece.node).any (isGated dropSolutions)) := by
  induction ps generalizing run target with
  | nil => simp [rewrap_nil, any_needsLift_closeRun hk]
  | cons q ps ih =>
    have hrest : ∀ n, .cell n ∈ ps → n.isCodeCell = true :=
      fun n hn => hcells n (List.mem_cons_of_mem _ hn)
    cases q with
    | prose n => simp [rewrap_prose, ih _ _ hrest, Bool.or_assoc]
    | cell n =>
      have hn := needsLift_of_isCodeCell (hcells n List.mem_cons_self) dropSolutions
      simp [rewrap_cell, ih _ _ hrest, any_needsLift_closeRun hk, hn, isGated_of_not_needsLift hn]

theorem any_needsLift_liftNode (dropSolutions : Bool) (n : Node) :
    (liftNode dropSolutions n).any (needsLift dropSolutions) = leavesSplits dropSolutions n := by
  rcases needsLift_cases dropSolutions n with h | h | ⟨kind, data, target, cs, rfl, hk, hcs⟩
  · simp [liftNode_of_not_needsLift h, leavesSplits, isGated_of_not_needsLift h, h]
  · rw [liftNode_of_isGated h, any_needsLift_gatedPieces h, leavesSplits, if_pos h]
  · have hcells : ∀ c, .cell c ∈ cs.flatMap (childPieces dropSolutions) →
        c.isCodeCell = true := by
      intro c hc
      obtain ⟨_, -, hc⟩ := List.mem_flatMap.mp hc
      exact isCodeCell_of_cell_mem_childPieces hc
    rw [liftNode_block hk hcs, any_needsLift_rewrap hk dropSolutions data target [] hcells,
      leavesSplits, if_neg (by simp [Parent.gates]), needsLift_block hk, hcs, List.map_flatMap,
      List.any_flatMap]
    simp only [any_isGated_childPieces, List.any_nil, Bool.false_or, Bool.true_and, children]

theorem isLifted_lift (dropSolutions : Bool) (ns : List Node) :
    isLifted dropSolutions (lift dropSolutions ns) = !ns.any (leavesSplits dropSolutions) := by
  rw [isLifted, lift, List.any_flatMap]
  simp only [any_needsLift_liftNode]

/-! No other document stays as it is: each split brings a code cell to the top. -/

theorem reachableCells_ne_nil {dropSolutions : Bool} {n : Node}
    (h : needsLift dropSolutions n = true) : reachableCells dropSolutions n ≠ [] := by
  have hgated {m : Node} (hm : isGated dropSolutions m = true) :
      ∃ c, c ∈ gatedCells dropSolutions m := by
    obtain ⟨p, cs, rfl, hp, hcs⟩ := isGated_iff.mp hm
    obtain ⟨c, hc, hcode⟩ := List.any_eq_true.mp hcs
    rw [gatedCells_of_gates hp]
    exact ⟨c, List.mem_filter.mpr ⟨hc, hcode⟩⟩
  rcases needsLift_cases dropSolutions n with hn | hn | ⟨kind, data, target, cs, rfl, hk, hcs⟩
  · rw [hn] at h
    cases h
  · obtain ⟨c, hc⟩ := hgated hn
    rw [reachableCells_of_isGated hn]
    exact List.ne_nil_of_mem hc
  · obtain ⟨m, hm, hmg⟩ := List.any_eq_true.mp hcs
    obtain ⟨c, hc⟩ := hgated hmg
    rw [reachableCells, if_neg hk]
    exact List.ne_nil_of_mem (List.mem_flatMap.mpr ⟨m, hm, hc⟩)

theorem isCodeCell_of_needsLift {dropSolutions : Bool} {n : Node}
    (h : needsLift dropSolutions n = true) : n.isCodeCell = false := by
  rw [← Bool.not_eq_true]
  intro hc
  rw [needsLift_of_isCodeCell hc] at h
  cases h

theorem length_cells_le_lift (dropSolutions : Bool) (ns : List Node) :
    (ns.filter isCodeCell).length ≤ ((lift dropSolutions ns).filter isCodeCell).length := by
  induction ns with
  | nil => exact Nat.le_refl _
  | cons n ns ih =>
    rw [lift, List.flatMap_cons, List.filter_append, List.length_append]
    cases hn : needsLift dropSolutions n with
    | true =>
      rw [List.filter_cons_of_neg (by simp [isCodeCell_of_needsLift hn])]
      exact Nat.le_trans ih (Nat.le_add_left _ _)
    | false =>
      rw [liftNode_of_not_needsLift hn, ← List.singleton_append, List.filter_append,
        List.length_append]
      exact Nat.add_le_add_left ih _

theorem lift_eq_self_iff {dropSolutions : Bool} {ns : List Node} :
    lift dropSolutions ns = ns ↔ isLifted dropSolutions ns = true := by
  refine ⟨fun h => ?_, lift_of_isLifted⟩
  induction ns with
  | nil => rfl
  | cons n ns ih =>
    rw [lift, List.flatMap_cons] at h
    cases hn : needsLift dropSolutions n with
    | true =>
      have hcells := congrArg (fun ms => (ms.filter isCodeCell).length) h
      have hcode : ¬n.isCodeCell = true := by simp [isCodeCell_of_needsLift hn]
      simp only [List.filter_append, List.length_append, filter_isCodeCell_liftNode,
        List.filter_cons_of_neg hcode] at hcells
      have hmore := List.length_pos_iff.mpr (reachableCells_ne_nil hn)
      have hrest := length_cells_le_lift dropSolutions ns
      rw [lift] at hrest
      omega
    | false =>
      rw [liftNode_of_not_needsLift hn, List.singleton_append, List.cons.injEq] at h
      simpa [isLifted, hn] using ih h.2

/-- Lifting a second time changes nothing, and says so, for exactly those documents in which no
split sets free what is to be split itself. -/
theorem lift_lift_eq_iff (dropSolutions : Bool) (ns : List Node) :
    (isLifted dropSolutions (lift dropSolutions ns) = true ↔
      ∀ n ∈ ns, leavesSplits dropSolutions n = false) ∧
    (lift dropSolutions (lift dropSolutions ns) = lift dropSolutions ns ↔
      ∀ n ∈ ns, leavesSplits dropSolutions n = false) := by
  have h : isLifted dropSolutions (lift dropSolutions ns) = true ↔
      ∀ n ∈ ns, leavesSplits dropSolutions n = false := by
    rw [isLifted_lift, Bool.not_eq_true', List.any_eq_false]
    simp only [Bool.not_eq_true]
  exact ⟨h, lift_eq_self_iff.trans h⟩

def codeCell (value : String) : Node :=
  .parent (.block (some codeCellKind) none {}) [.leaf (.code { value := value })]

def exercise (cs : List Node) : Node := .parent (.exercise {} none none) cs

/-- An exercise that follows a cell of another exercise keeps its own cell, until it is lifted
again. -/
theorem lift_nestedExercise :
    lift false [exercise [codeCell "a", exercise [codeCell "b"]]] =
        [exercise [], codeCell "a", exercise [codeCell "b"]] ∧
      isLifted false (lift false [exercise [codeCell "a", exercise [codeCell "b"]]]) = false ∧
      lift false (lift false [exercise [codeCell "a", exercise [codeCell "b"]]]) =
        [exercise [], codeCell "a", exercise [], codeCell "b"] := by
  decide

end MystNotebook.CodeCell
