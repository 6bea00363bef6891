import MystNotebook.Proofs.UnitCells

/-! Dropping solutions on the way to a notebook is deleting them beforehand. Lifting splits the two
documents differently, since a solution that will be dropped still counts as prose; what it adds is
blank, and so are the copies of a block that hold nothing else. -/
namespace MystNotebook

def Node.isSolution : Node → Bool
  | .parent (.solution _ _) _ => true
  | _ => false

namespace Node

theorem isSolution_iff {n : Node} :
    n.isSolution = true ↔ ∃ target cssClass cs, n = .parent (.solution target cssClass) cs := by
  constructor
  · intro h
    unfold isSolution at h
    split at h
    · exact ⟨_, _, _, rfl⟩
    · cases h
  · rintro ⟨_, _, _, rfl⟩
    rfl

theorem isSolution_parent (p : Parent) (cs ds : List Node) :
    (Node.parent p cs).isSolution = (Node.parent p ds).isSolution := by
  cases p <;> rfl

mutual

/-- The node without the solutions below it. -/
def withoutSolutions : Node → Node
  | .leaf l => .leaf l
  | .parent p cs => .parent p (withoutSolutionsAll cs)

/-- The nodes without the solutions among them and below them. -/
def withoutSolutionsAll : List Node → List Node
  | [] => []
  | n :: ns =>
    if n.isSolution then withoutSolutionsAll ns
    else withoutSolutions n :: withoutSolutionsAll ns

end

theorem withoutSolutionsAll_cons_of_isSolution {n : Node} (h : n.isSolution = true)
    (ns : List Node) : withoutSolutionsAll (n :: ns) = withoutSolutionsAll ns := by
  simp [withoutSolutionsAll, h]

theorem withoutSolutionsAll_cons {n : Node} (h : n.isSolution = false) (ns : List Node) :
    withoutSolutionsAll (n :: ns) = withoutSolutions n :: withoutSolutionsAll ns := by
  simp [withoutSolutionsAll, h]

theorem withoutSolutionsAll_append (ms ns : List Node) :
    withoutSolutionsAll (ms ++ ns) = withoutSolutionsAll ms ++ withoutSolutionsAll ns := by
  induction ms with
  | nil => simp [withoutSolutionsAll]
  | cons m ms ih =>
    cases h : m.isSolution with
    | true => simp [withoutSolutionsAll, h, ih]
    | false => simp [withoutSolutionsAll, h, ih]

mutual

theorem everywhere_withoutSolutions : (n : Node) → n.isSolution = false →
    n.withoutSolutions.Everywhere fun m => m.isSolution = false
  | .leaf l, h => by simpa [withoutSolutions] using h
  | .parent p cs, h => by
    rw [withoutSolutions, everywhere_parent]
    exact ⟨(isSolution_parent p _ cs).trans h, everywhere_withoutSolutionsAll cs⟩

/-- No solution is left at any depth. -/
theorem everywhere_withoutSolutionsAll : (ns : List Node) →
    ∀ n ∈ withoutSolutionsAll ns, n.Everywhere fun m => m.isSolution = false
  | [] => by simp [withoutSolutionsAll]
  | n :: ns => by
    cases h : n.isSolution with
    | true =>
      rw [withoutSolutionsAll_cons_of_isSolution h]
      exact everywhere_withoutSolutionsAll ns
    | false =>
      rw [withoutSolutionsAll_cons h, List.forall_mem_cons]
      exact ⟨everywhere_withoutSolutions n h, everywhere_withoutSolutionsAll ns⟩

end

@[simp] theorem isCodeCell_withoutSolutions (n : Node) :
    n.withoutSolutions.isCodeCell = n.isCodeCell := by
  cases n with
  | leaf l => rfl
  | parent p cs => cases p <;> rfl

theorem isCodeCell_of_isSolution {n : Node} (h : n.isSolution = true) : n.isCodeCell = false := by
  obtain ⟨_, _, _, rfl⟩ := isSolution_iff.mp h
  rfl

theorem isSolution_of_isCodeCell {n : Node} (h : n.isCodeCell = true) : n.isSolution = false := by
  rw [← Bool.not_eq_true]
  intro hs
  rw [isCodeCell_of_isSolution hs] at h
  cases h

/-- A test that no solution passes, and that sees nothing of the solutions below a node. -/
theorem any_withoutSolutionsAll {f g : Node → Bool}
    (hdropped : ∀ n, n.isSolution = true → f n = false)
    (hkept : ∀ n, n.isSolution = false → g n.withoutSolutions = f n) (ns : List Node) :
    (withoutSolutionsAll ns).any g = ns.any f := by
  induction ns with
  | nil => rfl
  | cons n ns ih =>
    cases h : n.isSolution with
    | true => simp [withoutSolutionsAll_cons_of_isSolution h, hdropped n h, ih]
    | false => simp [withoutSolutionsAll_cons h, hkept n h, ih]

theorem any_isCodeCell_withoutSolutionsAll (ns : List Node) :
    (withoutSolutionsAll ns).any isCodeCell = ns.any isCodeCell :=
  any_withoutSolutionsAll (fun _ => isCodeCell_of_isSolution)
    (fun n _ => isCodeCell_withoutSolutions n) ns

theorem codeOf_withoutSolutions (n : Node) : codeOf n.withoutSolutions = codeOf n := by
  cases n with
  | leaf l => rfl
  | parent p cs =>
    simp only [codeOf, withoutSolutions, children]
    induction cs with
    | nil => rfl
    | cons c cs ih =>
      cases c with
      | leaf l => cases l <;> simp_all [withoutSolutionsAll, isSolution, withoutSolutions]
      | parent q ds =>
        cases h : (Node.parent q ds).isSolution with
        | true => simpa [withoutSolutionsAll_cons_of_isSolution h] using ih
        | false => simpa [withoutSolutionsAll_cons h, withoutSolutions] using ih

end Node

namespace CommonMark
open Node

theorem degradeParent_dropSolutions {p : Parent} {cs : List Node}
    (h : (Node.parent p cs).isSolution = false) (ds : List Node) :
    degradeParent true p ds = degradeParent false p ds := by
  cases p with
  | solution => simp [isSolution] at h
  | _ => rfl

mutual

theorem degradeNode_withoutSolutions : (n : Node) → n.isSolution = false →
    degradeNode true n = degradeNode false n.withoutSolutions
  | .leaf l, _ => by simp [degradeNode, withoutSolutions]
  | .parent p cs, h => by
    rw [degradeNode, withoutSolutions, degradeNode, degrade_withoutSolutionsAll cs,
      degradeParent_dropSolutions h]

/-- A solution that is dropped leaves nothing behind. -/
theorem degrade_withoutSolutionsAll : (ns : List Node) →
    degrade true ns = degrade false (withoutSolutionsAll ns)
  | [] => by simp [degrade, withoutSolutionsAll]
  | n :: ns => by
    cases h : n.isSolution with
    | true =>
      have hn : degradeNode true n = [] := by
        obtain ⟨_, _, _, rfl⟩ := isSolution_iff.mp h
        simp [degradeNode, degradeParent]
      rw [withoutSolutionsAll_cons_of_isSolution h, degrade, hn,
        degrade_withoutSolutionsAll ns, List.map_nil, List.nil_append]
    | false =>
      rw [withoutSolutionsAll_cons h, degrade, degrade, degradeNode_withoutSolutions n h,
        degrade_withoutSolutionsAll ns]

end

theorem degrade_block (dropSolutions : Bool) (kind : Option String) (data : Option Json.Fields)
    (target : Target) (cs : List Node) :
    degrade dropSolutions [.parent (.block kind data target) cs] =
      [.parent (.block kind data {}) (degrade dropSolutions cs)] := by
  simp [degrade, degradeNode, degradeParent, Node.withoutTarget, Parent.withoutTarget]

end CommonMark

namespace CodeCell
open Node

/-- The pieces of a document and those of the document without solutions: prose that is a solution
has no counterpart. -/
inductive Agree : List Piece → List Piece → Prop
  | nil : Agree [] []
  | dropped {n : Node} {ps qs : List Piece} (h : n.isSolution = true) :
    Agree ps qs → Agree (.prose n :: ps) qs
  | prose {n : Node} {ps qs : List Piece} (h : n.isSolution = false) :
    Agree ps qs → Agree (.prose n :: ps) (.prose n.withoutSolutions :: qs)
  | cell {n : Node} {ps qs : List Piece} (h : n.isCodeCell = true) :
    Agree ps qs → Agree (.cell n :: ps) (.cell n.withoutSolutions :: qs)

theorem Agree.append {ps ps' qs qs' : List Piece} (h : Agree ps qs) (h' : Agree ps' qs') :
    Agree (ps ++ ps') (qs ++ qs') := by
  induction h with
  | nil => exact h'
  | dropped hn _ ih => exact .dropped hn ih
  | prose hn _ ih => exact .prose hn ih
  | cell hn _ ih => exact .cell hn ih

theorem agree_pieceOf (ns : List Node) :
    Agree (ns.map pieceOf) ((withoutSolutionsAll ns).map pieceOf) := by
  induction ns with
  | nil => exact .nil
  | cons n ns ih =>
    cases hs : n.isSolution with
    | true =>
      have hp : pieceOf n = .prose n := by simp [pieceOf, isCodeCell_of_isSolution hs]
      rw [withoutSolutionsAll_cons_of_isSolution hs, List.map_cons, hp]
      exact .dropped hs ih
    | false =>
      rw [withoutSolutionsAll_cons hs, List.map_cons, List.map_cons]
      by_cases hc : n.isCodeCell = true
      · simpa [pieceOf, hc] using .cell hc ih
      · simpa [pieceOf, hc] using .prose hs ih

/-- What stands before the first cell and what stands from it on lose their solutions apart. -/
theorem withoutSolutionsAll_span (ns : List Node) :
    withoutSolutionsAll (ns.takeWhile fun c => !c.isCodeCell) =
        ((withoutSolutionsAll ns).takeWhile fun c => !c.isCodeCell) ∧
      withoutSolutionsAll (ns.dropWhile fun c => !c.isCodeCell) =
        (withoutSolutionsAll ns).dropWhile fun c => !c.isCodeCell := by
  induction ns with
  | nil => simp [withoutSolutionsAll]
  | cons n ns ih =>
    cases hs : n.isSolution with
    | true => simp [withoutSolutionsAll, isCodeCell_of_isSolution hs, hs, ih]
    | false => by_cases hc : n.isCodeCell = true <;> simp [withoutSolutionsAll, hs, hc, ih]

theorem isGated_of_isSolution {n : Node} (h : n.isSolution = true) : isGated true n = false := by
  obtain ⟨_, _, _, rfl⟩ := isSolution_iff.mp h
  rfl

theorem needsLift_of_isSolution {n : Node} (h : n.isSolution = true) :
    needsLift true n = false := by
  obtain ⟨_, _, _, rfl⟩ := isSolution_iff.mp h
  rfl

theorem isGated_withoutSolutions {n : Node} (h : n.isSolution = false) :
    isGated false n.withoutSolutions = isGated true n := by
  cases n with
  | leaf l => rfl
  | parent p cs =>
    have hp : p.gates false = p.gates true := by
      cases p with
      | solution => simp [isSolution] at h
      | _ => rfl
    simp only [withoutSolutions, isGated_parent, any_isCodeCell_withoutSolutionsAll, hp]

theorem any_isGated_withoutSolutionsAll (ns : List Node) :
    (withoutSolutionsAll ns).any (isGated false) = ns.any (isGated true) :=
  any_withoutSolutionsAll (fun _ => isGated_of_isSolution)
    (fun _ => isGated_withoutSolutions) ns

theorem needsLift_withoutSolutions {n : Node} (h : n.isSolution = false) :
    needsLift false n.withoutSolutions = needsLift true n := by
  cases n with
  | leaf l => rfl
  | parent p cs =>
    cases p with
    | block kind data target =>
      simp only [withoutSolutions, needsLift, any_isGated_withoutSolutionsAll]
      rfl
    | _ => exact isGated_withoutSolutions h

theorem agree_gatedPieces {n : Node} (h : isGated true n = true) :
    Agree (gatedPieces n) (gatedPieces n.withoutSolutions) := by
  cases hs : n.isSolution with
  | true => simp [isGated_of_isSolution hs] at h
  | false =>
    obtain ⟨p, cs, rfl, -, -⟩ := isGated_iff.mp h
    have hrest := agree_pieceOf (cs.dropWhile fun c => !c.isCodeCell)
    rw [(withoutSolutionsAll_span cs).2] at hrest
    have hwrapper : (Node.parent p (cs.takeWhile fun c => !c.isCodeCell)).isSolution = false :=
      (isSolution_parent p _ cs).trans hs
    have := Agree.prose hwrapper hrest
    rwa [withoutSolutions, (withoutSolutionsAll_span cs).1] at this

theorem agree_childPieces (cs : List Node) :
    Agree (cs.flatMap (childPieces true))
      ((withoutSolutionsAll cs).flatMap (childPieces false)) := by
  induction cs with
  | nil => exact .nil
  | cons c cs ih =>
    cases hs : c.isSolution with
    | true =>
      have hc : childPieces true c = [.prose c] := by simp [childPieces, isGated_of_isSolution hs]
      rw [withoutSolutionsAll_cons_of_isSolution hs, List.flatMap_cons, hc]
      exact .dropped hs ih
    | false =>
      rw [withoutSolutionsAll_cons hs, List.flatMap_cons, List.flatMap_cons]
      refine Agree.append ?_ ih
      cases hg : isGated true c with
      | true => simpa [childPieces, isGated_withoutSolutions hs, hg] using agree_gatedPieces hg
      | false => simpa [childPieces, isGated_withoutSolutions hs, hg] using .prose hs .nil

end CodeCell

namespace Notebook
open Node CodeCell CommonMark

/-- Nothing is added for no nodes, nor for a block without children. -/
structure IgnoresBlank {β : Type} (prose : List Node → List β) : Prop where
  nil : prose [] = []
  block : ∀ kind data, prose [.parent (.block kind data {}) []] = []

section
variable {β : Type} (code : String → List β) (prose : List Node → List β)

/-- What a unit adds to a notebook in CommonMark. -/
abbrev ofPlainUnit (dropSolutions : Bool) : Node → List β :=
  ofUnit code prose fun unit => degrade dropSolutions [unit]

variable {code prose}

theorem ofPlainUnit_block {kind : Option String} (hk : kind ≠ some codeCellKind)
    (dropSolutions : Bool) (data : Option Json.Fields) (target : Target) (cs : List Node) :
    ofPlainUnit code prose dropSolutions (.parent (.block kind data target) cs) =
      prose [.parent (.block kind data {}) (degrade dropSolutions cs)] := by
  have hc : (Node.parent (.block kind data target) cs).isCodeCell = false :=
    isCodeCell_of_isWrapper (Parent.isWrapper_block.mpr hk) cs
  simp [ofUnit, hc, degrade_block]

theorem ofPlainUnit_withoutSolutions {n : Node} (h : n.isSolution = false) :
    ofPlainUnit code prose false n.withoutSolutions = ofPlainUnit code prose true n := by
  have hd : degrade true [n] = degrade false [n.withoutSolutions] := by
    rw [degrade_withoutSolutionsAll, withoutSolutionsAll_cons h, withoutSolutionsAll]
  simp only [ofUnit, isCodeCell_withoutSolutions, codeOf_withoutSolutions, hd]

variable (hprose : IgnoresBlank prose)
include hprose

theorem ofPlainUnit_of_isSolution {n : Node} (h : n.isSolution = true) :
    ofPlainUnit code prose true n = [] := by
  have hd : degrade true [n] = [] := by
    rw [degrade_withoutSolutionsAll, withoutSolutionsAll_cons_of_isSolution h, withoutSolutionsAll,
      degrade]
  simp only [ofUnit, isCodeCell_of_isSolution h, hd, hprose.nil, Bool.false_eq_true, if_false]

theorem flatMap_agree {ps qs : List Piece} (h : Agree ps qs) :
    (ps.map Piece.node).flatMap (ofPlainUnit code prose true) =
      (qs.map Piece.node).flatMap (ofPlainUnit code prose false) := by
  induction h with
  | nil => rfl
  | dropped hs _ ih =>
    rw [List.map_cons, List.flatMap_cons, Piece.node_prose,
      ofPlainUnit_of_isSolution hprose hs, List.nil_append, ih]
  | prose hs _ ih =>
    simp only [List.map_cons, List.flatMap_cons, Piece.node_prose, ih,
      ofPlainUnit_withoutSolutions hs]
  | cell hc _ ih =>
    have hs := isSolution_of_isCodeCell hc
    simp only [List.map_cons, List.flatMap_cons, Piece.node_cell, ih,
      ofPlainUnit_withoutSolutions hs]

/-- A copy of a block around nothing but solutions adds nothing, as if there were no copy. -/
theorem flatMap_closeRun {kind : Option String} (hk : kind ≠ some codeCellKind)
    (dropSolutions : Bool) (data : Option Json.Fields) (target : Target) (run : List Node) :
    (closeRun kind data target run).flatMap (ofPlainUnit code prose dropSolutions) =
      prose [.parent (.block kind data {}) (degrade dropSolutions run)] := by
  cases run with
  | nil => simp [closeRun, degrade, hprose.block]
  | cons n run => simp [closeRun, ofPlainUnit_block hk]

theorem flatMap_rewrap {kind : Option String} (hk : kind ≠ some codeCellKind)
    (data : Option Json.Fields) (target target' : Target) (run : List Node) {ps qs : List Piece}
    (h : Agree ps qs) :
    (rewrap kind data target run ps).flatMap (ofPlainUnit code prose true) =
      (rewrap kind data target' (withoutSolutionsAll run) qs).flatMap
        (ofPlainUnit code prose false) := by
  -- the targets differ where only one of the two documents has closed a copy of the block
  induction h generalizing run target target' with
  | nil =>
    rw [rewrap_nil, rewrap_nil, flatMap_closeRun hprose hk,
      flatMap_closeRun hprose hk, degrade_withoutSolutionsAll]
  | @dropped n _ _ hs _ ih =>
    have hrun : withoutSolutionsAll (run ++ [n]) = withoutSolutionsAll run := by
      simp [withoutSolutionsAll_append, withoutSolutionsAll, hs]
    rw [rewrap_prose, ih target target' (run ++ [n]), hrun]
  | @prose n _ _ hs _ ih =>
    have hrun : withoutSolutionsAll (run ++ [n]) =
        withoutSolutionsAll run ++ [n.withoutSolutions] := by
      simp [withoutSolutionsAll_append, withoutSolutionsAll, hs]
    rw [rewrap_prose, rewrap_prose, ih target target' (run ++ [n]), hrun]
  | cell hc _ ih =>
    have hs := isSolution_of_isCodeCell hc
    simp only [rewrap_cell, List.flatMap_append, List.flatMap_cons,
      flatMap_closeRun hprose hk, degrade_withoutSolutionsAll run,
      ofPlainUnit_withoutSolutions hs]
    rw [ih _ (if (withoutSolutionsAll run).isEmpty then target' else {}) [], withoutSolutionsAll]

theorem flatMap_liftNode {n : Node} (h : n.isSolution = false) :
    (liftNode true n).flatMap (ofPlainUnit code prose true) =
      (liftNode false n.withoutSolutions).flatMap (ofPlainUnit code prose false) := by
  rcases needsLift_cases true n with hn | hn | ⟨kind, data, target, cs, rfl, hk, hcs⟩
  · rw [liftNode_of_not_needsLift hn,
      liftNode_of_not_needsLift ((needsLift_withoutSolutions h).trans hn)]
    simp [ofPlainUnit_withoutSolutions h]
  · rw [liftNode_of_isGated hn, liftNode_of_isGated ((isGated_withoutSolutions h).trans hn)]
    exact flatMap_agree hprose (agree_gatedPieces hn)
  · rw [liftNode_block hk hcs, withoutSolutions,
      liftNode_block hk ((any_isGated_withoutSolutionsAll cs).trans hcs)]
    exact flatMap_rewrap hprose hk data target target [] (agree_childPieces cs)

variable (code) in
theorem flatMap_lift (ns : List Node) :
    (lift true ns).flatMap (ofPlainUnit code prose true) =
      (lift false (withoutSolutionsAll ns)).flatMap (ofPlainUnit code prose false) := by
  induction ns with
  | nil => simp [lift, withoutSolutionsAll]
  | cons n ns ih =>
    simp only [lift, List.flatMap_cons, List.flatMap_append] at ih ⊢
    cases hs : n.isSolution with
    | true =>
      rw [liftNode_of_not_needsLift (needsLift_of_isSolution hs),
        withoutSolutionsAll_cons_of_isSolution hs]
      simp [ofPlainUnit_of_isSolution hprose hs, ih]
    | false =>
      rw [withoutSolutionsAll_cons hs, List.flatMap_cons, List.flatMap_append, ih,
        flatMap_liftNode hprose hs]

end

theorem proseCells_ignoresBlank (images : Images) : IgnoresBlank (proseCells images) where
  nil := by
    have h : stripBlockBreaks (Markdown.write true []).toList = [] := by
      simp [Markdown.write, Markdown.draftOf_nil, stripBlockBreaks]
    exact proseCells_of_strip h images
  block kind data := by
    have h := stripBlockBreaks_blockBreak true (.parent (.block kind data {}) []) []
    rw [List.append_nil, stripBlockBreaks.eq_1] at h
    refine proseCells_of_strip ?_ images
    simpa [Markdown.write, Markdown.draftOf_emptyBlock, Markdown.Draft.push] using h

theorem diagnose_ignoresBlank : IgnoresBlank (Markdown.diagnose true) where
  nil := rfl
  block kind data := by
    simp [Markdown.diagnose, Markdown.draftOf_emptyBlock, Markdown.Draft.push]

/-- A notebook without solutions is the notebook of the document from which they have been deleted,
reports included: nothing inside a solution reaches a cell. -/
theorem ofDocument_dropSolutions (images : Images) (frontmatter : Option Frontmatter)
    (ns : List Node) :
    (preorderAll (withoutSolutionsAll ns)).any isSolution = false ∧
    ofDocument { markdown := .commonMark, dropSolutions := true, images := images } frontmatter ns =
      ofDocument { markdown := .commonMark, dropSolutions := false, images := images } frontmatter
        (withoutSolutionsAll ns) := by
  have hnone : ∀ m ∈ preorderAll (withoutSolutionsAll ns), m.isSolution = false :=
    forall_mem_preorderAll.mpr (everywhere_withoutSolutionsAll ns)
  refine ⟨List.any_eq_false.mpr fun m hm => by simp [hnone m hm], ?_⟩
  have hcells := flatMap_lift codeCells (proseCells_ignoresBlank images) ns
  have hreports := flatMap_lift (fun _ => []) diagnose_ignoresBlank ns
  rw [ofDocument_eq, ofDocument_eq]
  exact Prod.ext (congrArg (fun cells => ofCells cells frontmatter) hcells) hreports

end Notebook
end MystNotebook
