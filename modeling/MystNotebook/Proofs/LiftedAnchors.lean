import MystNotebook.Proofs.ReachableCode

/-! What references point at, while a document is lifted. A split sets the parts of a node one after
the other where the node stood, and only the first of them is still its target; so no anchor is
lost, defined twice or moved. -/
namespace MystNotebook

/-- Something that a reference can point at. -/
inductive Anchor where
  | identifier (name : String)
  | label (name : String)
  /-- A field of a node of an unknown kind, whatever it holds. -/
  | field (key : String) (value : Json.Value)

def Target.anchors (t : Target) : List Anchor :=
  (t.identifier.map .identifier).toList ++ (t.label.map .label).toList

def Leaf.anchors : Leaf → List Anchor
  | .code c => c.target.anchors
  | .math m => m.target.anchors
  | .target label => [.label label]
  | _ => []

/-- The target of a cross reference is not its own. -/
def Parent.anchors : Parent → List Anchor
  | .block _ _ target | .heading _ target | .container _ target _ _ | .exercise target _ _
  | .solution target _ | .proof _ target _ => target.anchors
  | .other _ fields =>
    ["identifier", "label", "html_id"].filterMap fun key => (fields.get? key).map (.field key)
  | _ => []

def Node.anchors : Node → List Anchor
  | .leaf l => l.anchors
  | .parent p _ => p.anchors

@[simp] theorem Target.anchors_empty : ({} : Target).anchors = [] := rfl

/-- The anchors are what is taken off a target. -/
theorem Parent.anchors_withoutTarget (p : Parent) : p.withoutTarget.anchors = [] := by
  cases p with
  | other name fields =>
    have hfield : ∀ key ∈ ["identifier", "label", "html_id"],
        (((fields.erase "identifier").erase "label").erase "html_id").get? key = none := by
      simp [Json.Fields.get?_erase_self, Json.Fields.get?_erase_of_ne]
    simp only [withoutTarget, anchors, List.filterMap_eq_nil_iff]
    intro key hkey
    rw [hfield key hkey]
    rfl
  | _ => rfl

namespace CodeCell
open Node

/-- The anchors of a document, in pre-order. -/
def anchorsAll (ns : List Node) : List Anchor := (preorderAll ns).flatMap Node.anchors

@[simp] theorem anchorsAll_nil : anchorsAll [] = [] := rfl

theorem anchorsAll_append (xs ys : List Node) :
    anchorsAll (xs ++ ys) = anchorsAll xs ++ anchorsAll ys := by
  simp [anchorsAll, preorderAll_eq_flatMap]

theorem anchorsAll_cons (n : Node) (ns : List Node) :
    anchorsAll (n :: ns) = anchorsAll [n] ++ anchorsAll ns :=
  anchorsAll_append [n] ns

theorem anchorsAll_parent (p : Parent) (cs : List Node) :
    anchorsAll [.parent p cs] = p.anchors ++ anchorsAll cs := by
  simp [anchorsAll, preorderAll, preorder, Node.anchors]

theorem anchorsAll_flatMap {f : Node → List Node} (h : ∀ n, anchorsAll (f n) = anchorsAll [n])
    (ns : List Node) : anchorsAll (ns.flatMap f) = anchorsAll ns := by
  induction ns with
  | nil => rfl
  | cons n ns ih => rw [List.flatMap_cons, anchorsAll_append, h, ih, ← anchorsAll_cons]

theorem anchorsAll_gatedPieces (n : Node) :
    anchorsAll ((gatedPieces n).map Piece.node) = anchorsAll [n] := by
  cases n with
  | leaf l => rfl
  | parent p cs =>
    rw [map_node_gatedPieces, anchorsAll_cons, anchorsAll_parent, anchorsAll_parent,
      List.append_assoc, ← anchorsAll_append, List.takeWhile_append_dropWhile]

theorem anchorsAll_childPieces (dropSolutions : Bool) (n : Node) :
    anchorsAll ((childPieces dropSolutions n).map Piece.node) = anchorsAll [n] := by
  unfold childPieces
  split
  next => exact anchorsAll_gatedPieces n
  next => rfl

/-! The copies of a block. -/

section
variable {kind : Option String} {data : Option Json.Fields}

/-- A copy of the block that is no target. -/
def IsCopy (kind : Option String) (data : Option Json.Fields) (unit : Node) : Prop :=
  ∃ run, run ≠ [] ∧ unit = .parent (.block kind data {}) run

theorem anchorsAll_closeRun (target : Target) {run : List Node} (h : run ≠ []) :
    anchorsAll (closeRun kind data target run) = target.anchors ++ anchorsAll run := by
  rw [closeRun, if_neg (by simpa using h), anchorsAll_parent]
  rfl

theorem anchorsAll_rewrap_of_no_target (run : List Node) (ps : List Piece) :
    anchorsAll (rewrap kind data {} run ps) =
      anchorsAll run ++ anchorsAll (ps.map Piece.node) := by
  have hclose (run : List Node) : anchorsAll (closeRun kind data {} run) = anchorsAll run := by
    by_cases hrun : run = []
    · rw [hrun]
      rfl
    · rw [anchorsAll_closeRun {} hrun, Target.anchors_empty, List.nil_append]
  induction ps generalizing run with
  | nil => rw [rewrap_nil, hclose, List.map_nil, anchorsAll_nil, List.append_nil]
  | cons q ps ih =>
    cases q with
    | prose n =>
      rw [rewrap_prose, ih, anchorsAll_append, List.append_assoc, ← anchorsAll_append]
      rfl
    | cell n =>
      rw [rewrap_cell, ite_self, anchorsAll_append, hclose, anchorsAll_cons n, ih, anchorsAll_nil,
        List.nil_append, ← anchorsAll_cons]
      rfl

/-- The first copy is closed before any cell, since prose is open already. -/
theorem anchorsAll_rewrap (target : Target) {run : List Node} (h : run ≠ []) (ps : List Piece) :
    anchorsAll (rewrap kind data target run ps) =
      target.anchors ++ anchorsAll run ++ anchorsAll (ps.map Piece.node) := by
  induction ps generalizing run with
  | nil => rw [rewrap_nil, anchorsAll_closeRun target h, List.map_nil, anchorsAll_nil,
      List.append_nil]
  | cons q ps ih =>
    cases q with
    | prose n =>
      rw [rewrap_prose, ih (by simp), anchorsAll_append, List.append_assoc, List.append_assoc,
        List.append_assoc, ← anchorsAll_append]
      rfl
    | cell n =>
      rw [rewrap_cell, if_neg (by simpa using h), anchorsAll_append, anchorsAll_closeRun target h,
        anchorsAll_cons n, anchorsAll_rewrap_of_no_target, anchorsAll_nil, List.nil_append,
        ← anchorsAll_cons]
      rfl

theorem mem_rewrap_of_no_target {run : List Node} {ps : List Piece} {unit : Node}
    (h : unit ∈ rewrap kind data {} run ps) : .cell unit ∈ ps ∨ IsCopy kind data unit := by
  have hclose {run : List Node} (hmem : unit ∈ closeRun kind data {} run) :
      IsCopy kind data unit := by
    unfold closeRun at hmem
    split at hmem
    next => cases hmem
    next hrun => exact ⟨run, by simpa using hrun, List.mem_singleton.mp hmem⟩
  induction ps generalizing run with
  | nil => exact .inr (hclose h)
  | cons q ps ih =>
    cases q with
    | prose n => exact (ih h).imp_left (List.mem_cons_of_mem _)
    | cell n =>
      rw [rewrap_cell, ite_self, List.mem_append, List.mem_cons] at h
      rcases h with h | rfl | h
      · exact .inr (hclose h)
      · exact .inl List.mem_cons_self
      · exact (ih h).imp_left (List.mem_cons_of_mem _)

theorem exists_rewrap_eq_cons (kind : Option String) (data : Option Json.Fields)
    (target : Target) {run : List Node} (h : run ≠ [])
    (ps : List Piece) :
    ∃ first rest, rewrap kind data target run ps = .parent (.block kind data target) first :: rest ∧
      first ≠ [] ∧ ∀ unit ∈ rest, .cell unit ∈ ps ∨ IsCopy kind data unit := by
  induction ps generalizing run with
  | nil => exact ⟨run, [], by rw [rewrap_nil, closeRun, if_neg (by simpa using h)], h, by simp⟩
  | cons q ps ih =>
    cases q with
    | prose n =>
      obtain ⟨first, rest, heq, hfirst, hrest⟩ :=
        ih (List.append_ne_nil_of_right_ne_nil run (List.cons_ne_nil n []))
      refine ⟨first, rest, by rw [rewrap_prose, heq], hfirst, fun unit hunit => ?_⟩
      exact (hrest unit hunit).imp_left (List.mem_cons_of_mem _)
    | cell n =>
      have hne : ¬ run.isEmpty = true := by simpa using h
      refine ⟨run, n :: rewrap kind data {} [] ps, ?_, h, fun unit hunit => ?_⟩
      · rw [rewrap_cell, if_neg hne, closeRun, if_neg hne, List.singleton_append]
      · rcases List.mem_cons.mp hunit with rfl | hunit
        · exact .inl List.mem_cons_self
        · exact (mem_rewrap_of_no_target hunit).imp_left (List.mem_cons_of_mem _)

end

/-- The pieces of a block start with prose, for a child that is split keeps what stands before its
first cell. -/
theorem exists_childPieces_eq_cons (dropSolutions : Bool) {cs : List Node} (h : cs ≠ []) :
    ∃ n ps, cs.flatMap (childPieces dropSolutions) = .prose n :: ps := by
  cases cs with
  | nil => exact absurd rfl h
  | cons c cs =>
    rw [List.flatMap_cons, childPieces]
    split
    next =>
      cases c with
      | leaf l => exact ⟨_, _, rfl⟩
      | parent p ds => exact ⟨_, _, rfl⟩
    next => exact ⟨_, _, rfl⟩

theorem anchorsAll_liftNode (dropSolutions : Bool) (n : Node) :
    anchorsAll (liftNode dropSolutions n) = anchorsAll [n] := by
  rcases needsLift_cases dropSolutions n with h | h | ⟨kind, data, target, cs, rfl, hk, hcs⟩
  · rw [liftNode_of_not_needsLift h]
  · rw [liftNode_of_isGated h, anchorsAll_gatedPieces]
  · have hne : cs ≠ [] := by
      rintro rfl
      cases hcs
    obtain ⟨m, ps, hps⟩ := exists_childPieces_eq_cons dropSolutions hne
    have hpieces : anchorsAll [m] ++ anchorsAll (ps.map Piece.node) = anchorsAll cs := by
      rw [← anchorsAll_cons, ← Piece.node_prose m, ← List.map_cons, ← hps, List.map_flatMap]
      exact anchorsAll_flatMap (anchorsAll_childPieces dropSolutions) cs
    rw [liftNode_block hk hcs, hps, rewrap_prose, List.nil_append,
      anchorsAll_rewrap target (List.cons_ne_nil m []), List.append_assoc, hpieces,
      anchorsAll_parent]
    rfl

/-- The units that a split block leaves: the first copy of it, and behind it further copies that are
no targets and the code cells that have come out of its children. -/
theorem exists_liftNode_eq_cons {dropSolutions : Bool} {kind : Option String}
    {data : Option Json.Fields} {target : Target} {cs : List Node}
    (h : needsLift dropSolutions (.parent (.block kind data target) cs) = true) :
    ∃ first rest, liftNode dropSolutions (.parent (.block kind data target) cs) =
        .parent (.block kind data target) first :: rest ∧
      first ≠ [] ∧ rest.filter isCodeCell = cs.flatMap (gatedCells dropSolutions) ∧
      ∀ unit ∈ rest, unit.isCodeCell = true ∨ IsCopy kind data unit := by
  have hblock : kind ≠ some codeCellKind ∧ cs.any (isGated dropSolutions) = true := by
    simpa [needsLift, isCodeCell] using h
  obtain ⟨hk, hcs⟩ := hblock
  have hne : cs ≠ [] := by
    rintro rfl
    cases hcs
  obtain ⟨m, ps, hps⟩ := exists_childPieces_eq_cons dropSolutions hne
  have hcells : (cs.flatMap (childPieces dropSolutions)).filterMap Piece.cell? =
      cs.flatMap (gatedCells dropSolutions) := by
    rw [List.filterMap_flatMap]
    simp only [cells_childPieces]
  obtain ⟨first, rest, heq, hfirst, hrest⟩ :=
    exists_rewrap_eq_cons kind data target (List.cons_ne_nil m []) ps
  have hlift : liftNode dropSolutions (.parent (.block kind data target) cs) =
      .parent (.block kind data target) first :: rest := by
    rw [liftNode_block hk hcs, hps, rewrap_prose, List.nil_append, heq]
  refine ⟨first, rest, hlift, hfirst, ?_, fun unit hunit => ?_⟩
  · have hcopy : isCodeCell (.parent (.block kind data target) first) = false :=
      isCodeCell_of_isWrapper (Parent.isWrapper_block.mpr hk) first
    have hfilter := filter_isCodeCell_liftNode dropSolutions (.parent (.block kind data target) cs)
    rw [hlift, List.filter_cons_of_neg (by simp [hcopy])] at hfilter
    rw [hfilter, reachableCells, if_neg hk]
  · refine (hrest unit hunit).imp_left fun hcell => ?_
    have hmem : unit ∈ cs.flatMap (gatedCells dropSolutions) := by
      rw [← hcells, hps]
      exact List.mem_filterMap.mpr ⟨.cell unit, List.mem_cons_of_mem _ hcell, rfl⟩
    obtain ⟨c, -, hc⟩ := List.mem_flatMap.mp hmem
    rw [← filter_gatedCells] at hc
    exact (List.mem_filter.mp hc).2

/-- Lifting keeps every anchor once and in its place, and a block that is split leaves in its own
place copies of itself, none of them empty and only the first its target, between the code cells
that have come out of it. -/
theorem anchorsAll_lift (dropSolutions : Bool) (ns : List Node) :
    anchorsAll (lift dropSolutions ns) = anchorsAll ns ∧
    ∀ before kind data target cs after,
      ns = before ++ .parent (.block kind data target) cs :: after →
      needsLift dropSolutions (.parent (.block kind data target) cs) = true →
      ∃ first rest,
        lift dropSolutions ns = lift dropSolutions before ++
          .parent (.block kind data target) first :: rest ++ lift dropSolutions after ∧
        first ≠ [] ∧ rest.filter isCodeCell = cs.flatMap (gatedCells dropSolutions) ∧
        ∀ unit ∈ rest, unit.isCodeCell = true ∨
          ∃ run, run ≠ [] ∧ unit = .parent (.block kind data {}) run := by
  refine ⟨anchorsAll_flatMap (anchorsAll_liftNode dropSolutions) ns, ?_⟩
  rintro before kind data target cs after rfl h
  obtain ⟨first, rest, heq, hrest⟩ := exists_liftNode_eq_cons h
  refine ⟨first, rest, ?_, hrest⟩
  simp only [lift, List.flatMap_append, List.flatMap_cons, heq, List.append_assoc]

/-- A labelled block with prose and cells before, in and behind a labelled exercise. -/
theorem anchorsAll_lift_labelledBlock :
    let cell : Node := .parent (.block (some codeCellKind) none {}) [.leaf (.code {})]
    let exercise : Node := .parent (.exercise { label := some "ex" } none none)
      [cell, .leaf (.math { target := { label := some "eq" } }), cell]
    let cs : List Node := [.leaf (.target "start"), exercise, .paragraph []]
    let target : Target := { identifier := some "b", label := some "b" }
    let block : Node := .parent (.block none none target) cs
    needsLift false block = true ∧ anchorsAll (lift false [block]) = anchorsAll [block] ∧
      ∃ first rest,
        lift false [block] = lift false [] ++ .parent (.block none none target) first :: rest ++
          lift false [] ∧
        first ≠ [] ∧ rest.filter isCodeCell = cs.flatMap (gatedCells false) ∧
        ∀ unit ∈ rest, unit.isCodeCell = true ∨
          ∃ run, run ≠ [] ∧ unit = .parent (.block none none {}) run := by
  intro cell exercise cs target block
  obtain ⟨hanchors, hunits⟩ := anchorsAll_lift false [block]
  exact ⟨rfl, hanchors, hunits [] none none target cs [] rfl rfl⟩

end CodeCell
end MystNotebook
