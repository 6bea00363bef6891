import Mathlib.Data.List.Basic
import MystNotebook.CommonMark.Degrade
import MystNotebook.Proofs.LiftedUnits

/-! Documents without reference metadata and presentation attributes. Lifting and degrading read
none of it and put none of it where they read, so that it can be taken off before or afterwards. -/
namespace MystNotebook

namespace Json.Fields

/-- The entry of one key, if there is one. -/
def only (f : Fields) (key : String) : Fields :=
  ⟨f.entries.filter (·.1 = key), f.sorted.filter _⟩

theorem get?_only (f : Fields) (key : String) : (f.only key).get? key = f.get? key := by
  show lookup key (f.entries.filter (·.1 = key)) = lookup key f.entries
  induction f.entries with
  | nil => rfl
  | cons e l ih =>
    by_cases h : e.1 = key
    · rw [List.filter_cons_of_pos (by simpa using h), lookup, lookup, if_pos h, if_pos h]
    · rw [List.filter_cons_of_neg (by simpa using h), ih, lookup, if_neg h]

theorem only_erase (key other : String) (f : Fields) :
    (f.erase other).only key = (f.only key).erase other :=
  ext (List.filter_comm _ _ f.entries)

end Json.Fields

def Leaf.bare : Leaf → Leaf
  | .code c => .code { lang := c.lang, metadata := c.metadata, value := c.value }
  | .image i => .image { url := i.url, title := i.title, alt := i.alt }
  | .target _ => .target ""
  | .comment _ => .comment ""
  | l => l

/-- The fields of an unknown node go as well, except for the value. -/
def Parent.bare : Parent → Parent
  | .block kind data _ => .block kind data {}
  | .heading depth _ => .heading depth {}
  | .admonition kind _ => .admonition kind none
  | .container kind _ enumerator _ => .container kind {} enumerator none
  | .exercise _ enumerator _ => .exercise {} enumerator none
  | .solution _ _ => .solution {} none
  | .proof kind _ enumerator => .proof kind {} enumerator
  | .grid _ => .grid none
  | .details _ => .details none
  | .aside kind _ => .aside kind none
  | .inclusion _ => .inclusion none
  | .directive name _ _ value => .directive name none none value
  | .other name fields => .other name (fields.only "value")
  | p => p

namespace Node

mutual

/-- The node without reference metadata and presentation attributes, at every depth. -/
def bare : Node → Node
  | .leaf l => .leaf l.bare
  | .parent p cs => .parent p.bare (bareAll cs)

def bareAll : List Node → List Node
  | [] => []
  | n :: ns => bare n :: bareAll ns

end

theorem bareAll_eq_map (ns : List Node) : bareAll ns = ns.map bare := by
  induction ns with
  | nil => rw [bareAll, List.map_nil]
  | cons n ns ih => rw [bareAll, ih, List.map_cons]

@[simp] theorem bare_leaf (l : Leaf) : bare (.leaf l) = .leaf l.bare := by
  rw [bare]

@[simp] theorem bare_parent (p : Parent) (cs : List Node) :
    bare (.parent p cs) = .parent p.bare (cs.map bare) := by
  rw [bare, bareAll_eq_map]

@[simp] theorem bare_text (value : String) : bare (.text value) = .text value := bare_leaf _

@[simp] theorem bare_paragraph (cs : List Node) :
    bare (.paragraph cs) = .paragraph (cs.map bare) := bare_parent _ cs

@[simp] theorem bare_strong (cs : List Node) : bare (.strong cs) = .strong (cs.map bare) :=
  bare_parent _ cs

@[simp] theorem bare_emphasis (cs : List Node) : bare (.emphasis cs) = .emphasis (cs.map bare) :=
  bare_parent _ cs

@[simp] theorem bare_blockquote (cs : List Node) :
    bare (.blockquote cs) = .blockquote (cs.map bare) := bare_parent _ cs

/-- What is read off a node is the same without what is taken off if it is so for leaves and parents
apart. -/
theorem apply_bare {α : Type} {f : Node → α} (hleaf : ∀ l : Leaf, f (.leaf l.bare) = f (.leaf l))
    (hparent : ∀ (p : Parent) (cs : List Node),
      f (.parent p.bare (cs.map bare)) = f (.parent p cs)) (n : Node) : f n.bare = f n := by
  cases n with
  | leaf l =>
    rw [bare_leaf]
    exact hleaf l
  | parent p cs =>
    rw [bare_parent]
    exact hparent p cs

theorem any_map_bare {p : Node → Bool} (h : ∀ n, p n.bare = p n) (ns : List Node) :
    (ns.map bare).any p = ns.any p := by
  rw [List.any_map]
  congr 1
  exact funext h

theorem all_map_bare {p : Node → Bool} (h : ∀ n, p n.bare = p n) (ns : List Node) :
    (ns.map bare).all p = ns.all p := by
  rw [List.all_map]
  congr 1
  exact funext h

theorem filter_map_bare {p : Node → Bool} (h : ∀ n, p n.bare = p n) (ns : List Node) :
    (ns.map bare).filter p = (ns.filter p).map bare := by
  rw [List.filter_map]
  congr 2
  exact funext h

@[simp] theorem isCodeCell_bare (n : Node) : n.bare.isCodeCell = n.isCodeCell := by
  apply apply_bare
  · intro l
    rfl
  · intro p cs
    cases p <;> rfl

theorem ownText_bare (n : Node) : n.bare.ownText = n.ownText := by
  apply apply_bare
  · intro l
    cases l <;> rfl
  · intro p cs
    rfl

mutual

theorem preorder_bare : (n : Node) → preorder n.bare = (preorder n).map bare
  | .leaf l => by rw [bare_leaf, preorder, preorder, List.map_singleton, bare_leaf]
  | .parent p cs => by
    rw [bare_parent, preorder, preorder, List.map_cons, preorderAll_map_bare cs, bare_parent]

theorem preorderAll_map_bare : (ns : List Node) →
    preorderAll (ns.map bare) = (preorderAll ns).map bare
  | [] => by rw [List.map_nil, preorderAll, List.map_nil]
  | n :: ns => by
    rw [List.map_cons, preorderAll, preorderAll, List.map_append, preorder_bare n,
      preorderAll_map_bare ns]

end

@[simp] theorem plainText_map_bare (ns : List Node) :
    plainText (ns.map bare) = plainText ns := by
  simp only [plainText, preorderAll_map_bare, List.map_map, Function.comp_def, ownText_bare]

end Node

theorem Leaf.bare_withoutTarget (l : Leaf) : l.withoutTarget.bare = l.bare.withoutTarget := by
  cases l <;> rfl

theorem Parent.bare_withoutTarget (p : Parent) : p.withoutTarget.bare = p.bare.withoutTarget := by
  cases p with
  | other name fields => simp only [withoutTarget, bare, Json.Fields.only_erase]
  | _ => rfl

theorem Node.bare_withoutTarget (n : Node) : n.withoutTarget.bare = n.bare.withoutTarget := by
  cases n with
  | leaf l => rw [withoutTarget, bare_leaf, bare_leaf, withoutTarget, l.bare_withoutTarget]
  | parent p cs =>
    rw [withoutTarget, bare_parent, bare_parent, withoutTarget, p.bare_withoutTarget]

/-! Lifting. -/

namespace CodeCell
open Node

def Piece.bare : Piece → Piece
  | .prose n => .prose n.bare
  | .cell n => .cell n.bare

theorem Piece.node_bare (q : Piece) : q.bare.node = q.node.bare := by
  cases q <;> rfl

theorem pieceOf_bare (n : Node) : pieceOf n.bare = (pieceOf n).bare := by
  rw [pieceOf, pieceOf, isCodeCell_bare]
  split <;> rfl

theorem isGated_bare (dropSolutions : Bool) (n : Node) :
    isGated dropSolutions n.bare = isGated dropSolutions n := by
  apply apply_bare
  · intro l
    rw [isGated_leaf, isGated_leaf]
  · intro p cs
    have hgates : p.bare.gates dropSolutions = p.gates dropSolutions := by
      cases p <;> rfl
    rw [isGated_parent, isGated_parent, hgates, any_map_bare isCodeCell_bare]

theorem needsLift_bare (dropSolutions : Bool) (n : Node) :
    needsLift dropSolutions n.bare = needsLift dropSolutions n := by
  have hgated := isGated_bare dropSolutions n
  cases n with
  | leaf l => exact hgated
  | parent p cs =>
    rw [bare_parent] at hgated ⊢
    cases p with
    | block kind data target =>
      rw [Parent.bare, needsLift, needsLift, any_map_bare (isGated_bare dropSolutions)]
      rfl
    | _ => exact hgated

theorem gatedPieces_bare (n : Node) : gatedPieces n.bare = (gatedPieces n).map Piece.bare := by
  have hcell : (fun c : Node => !c.isCodeCell) ∘ bare = fun c => !c.isCodeCell := by
    funext c
    simp
  cases n with
  | leaf l => rw [bare_leaf]; rfl
  | parent p cs =>
    rw [bare_parent, gatedPieces, gatedPieces, List.takeWhile_map, List.dropWhile_map, hcell]
    simp [Piece.bare, pieceOf_bare, Function.comp_def]

theorem childPieces_bare (dropSolutions : Bool) (n : Node) :
    childPieces dropSolutions n.bare = (childPieces dropSolutions n).map Piece.bare := by
  rw [childPieces, childPieces, isGated_bare]
  split
  next => exact gatedPieces_bare n
  next => rfl

/-- The copies of a block carry no target, whichever of them got it. -/
theorem rewrap_bare (kind : Option String) (data : Option Json.Fields) (target : Target)
    (run : List Node) (ps : List Piece) :
    rewrap kind data {} (run.map bare) (ps.map Piece.bare) =
      (rewrap kind data target run ps).map bare := by
  induction ps generalizing run target with
  | nil =>
    rw [List.map_nil, rewrap, rewrap, List.isEmpty_map]
    split <;> simp [Parent.bare]
  | cons q ps ih =>
    cases q with
    | prose n =>
      have hrun : run.map bare ++ [n.bare] = (run ++ [n]).map bare := by simp
      rw [List.map_cons, Piece.bare, rewrap, rewrap, hrun, ih]
    | cell n =>
      have hrest := ih target []
      have hrest' := ih {} []
      rw [List.map_cons, Piece.bare, rewrap, rewrap, List.isEmpty_map]
      rw [List.map_nil] at hrest hrest'
      split
      next => rw [List.map_cons, hrest]
      next => rw [List.map_cons, List.map_cons, hrest', bare_parent, Parent.bare]

theorem liftNode_bare (dropSolutions : Bool) (n : Node) :
    liftNode dropSolutions n.bare = (liftNode dropSolutions n).map bare := by
  rcases needsLift_cases dropSolutions n with h | h | ⟨kind, data, target, cs, rfl, hkind, hcs⟩
  · have hbare : needsLift dropSolutions n.bare = false := by rw [needsLift_bare, h]
    rw [liftNode_of_not_needsLift h, liftNode_of_not_needsLift hbare, List.map_singleton]
  · have hbare : isGated dropSolutions n.bare = true := by rw [isGated_bare, h]
    rw [liftNode_of_isGated h, liftNode_of_isGated hbare, gatedPieces_bare, List.map_map,
      List.map_map]
    exact List.map_congr_left fun q _ => q.node_bare
  · have hbare : (cs.map bare).any (isGated dropSolutions) = true := by
      rw [any_map_bare (isGated_bare dropSolutions), hcs]
    have hpieces : (cs.map bare).flatMap (childPieces dropSolutions) =
        (cs.flatMap (childPieces dropSolutions)).map Piece.bare := by
      rw [List.flatMap_map, List.map_flatMap]
      exact List.flatMap_congr fun c _ => childPieces_bare dropSolutions c
    have hrewrap := rewrap_bare kind data target [] (cs.flatMap (childPieces dropSolutions))
    rw [List.map_nil] at hrewrap
    rw [bare_parent, Parent.bare, liftNode_block hkind hbare, liftNode_block hkind hcs, hpieces,
      hrewrap]

/-- It does not matter whether what is taken off goes before lifting or afterwards. -/
theorem lift_map_bare (dropSolutions : Bool) (ns : List Node) :
    lift dropSolutions (ns.map bare) = (lift dropSolutions ns).map bare := by
  rw [lift, lift, List.flatMap_map, List.map_flatMap]
  exact List.flatMap_congr fun n _ => liftNode_bare dropSolutions n

end CodeCell

/-! Degrading. -/

namespace CommonMark
open Node

theorem unwrapped_bare (n : Node) : unwrapped n.bare = (unwrapped n).map bare := by
  cases n with
  | leaf l => rw [bare_leaf]; rfl
  | parent p cs =>
    rw [bare_parent]
    cases p <;> simp [Parent.bare, unwrapped]

theorem appendInline_bare (out : List Node) (n : Node) :
    appendInline (out.map bare) n.bare = (appendInline out n).map bare := by
  simp only [appendInline, unwrapped_bare, List.isEmpty_map]
  split <;> simp

theorem inlineContent_map_bare (ns : List Node) :
    inlineContent (ns.map bare) = (inlineContent ns).map bare := by
  have hfold (out : List Node) : (ns.map bare).foldl appendInline (out.map bare) =
      (ns.foldl appendInline out).map bare := by
    induction ns generalizing out with
    | nil => rfl
    | cons n ns ih => rw [List.map_cons, List.foldl_cons, List.foldl_cons, appendInline_bare, ih]
  exact hfold []

theorem splitTitle_map_bare (ns : List Node) :
    splitTitle (ns.map bare) =
      ((splitTitle ns).1.map (List.map bare), (splitTitle ns).2.map bare) := by
  cases ns with
  | nil => rfl
  | cons n ns =>
    rw [List.map_cons]
    cases n with
    | leaf l => rw [bare_leaf]; rfl
    | parent p cs =>
      rw [bare_parent]
      cases p with
      | admonitionTitle =>
        have htitle : Parent.admonitionTitle.bare = .admonitionTitle := rfl
        rw [htitle, splitTitle, splitTitle, inlineContent_map_bare]
        rfl
      | _ => simp [Parent.bare, splitTitle]

theorem nonEmpty_map_bare (ns : List Node) :
    nonEmpty (ns.map bare) = (nonEmpty ns).map (List.map bare) := by
  rw [nonEmpty, nonEmpty, List.isEmpty_map]
  split <;> rfl

theorem bind_nonEmpty_map_bare (title : Option (List Node)) :
    (title.map (List.map bare)).bind nonEmpty = (title.bind nonEmpty).map (List.map bare) := by
  cases title with
  | none => rfl
  | some title => exact nonEmpty_map_bare title

/-! Parts are looked for by their kinds. -/

/-- Finds the same nodes, and of these the same children. -/
def FindsBare (children? : Node → Option (List Node)) : Prop :=
  ∀ n, children? n.bare = (children? n).map (List.map bare)

theorem findsBare_partOf {p : Parent} (hp : ∀ q : Parent, q.bare = p ↔ q = p) :
    FindsBare (partOf p) := by
  intro n
  cases n with
  | leaf l => rw [bare_leaf]; rfl
  | parent q cs =>
    rw [bare_parent, partOf, partOf, apply_ite (Option.map _)]
    simp only [hp]
    rfl

theorem findsBare_caption : FindsBare caption? :=
  findsBare_partOf fun q => by cases q <;> simp [Parent.bare]

theorem findsBare_legend : FindsBare legend? :=
  findsBare_partOf fun q => by cases q <;> simp [Parent.bare]

theorem findsBare_cardTitle : FindsBare cardTitle? :=
  findsBare_partOf fun q => by cases q <;> simp [Parent.bare]

theorem findsBare_summary : FindsBare summary? :=
  findsBare_partOf fun q => by cases q <;> simp [Parent.bare]

section
variable {children? : Node → Option (List Node)}

theorem FindsBare.isNone_bare (h : FindsBare children?) (n : Node) :
    (children? n.bare).isNone = (children? n).isNone := by
  rw [h n, Option.isNone_map]

theorem FindsBare.lastOf_map_bare (h : FindsBare children?) (ns : List Node) :
    lastOf children? (ns.map bare) = (lastOf children? ns).map (List.map bare) := by
  rw [lastOf, lastOf, ← List.map_reverse, List.findSome?_map,
    List.map_findSome?]
  congr 1
  funext n
  exact h n

theorem FindsBare.flatten_map_bare (h : FindsBare children?) (ns : List Node) :
    ((ns.map bare).filterMap children?).flatten =
      ((ns.filterMap children?).flatten).map bare := by
  have hparts : children? ∘ bare = Option.map (List.map bare) ∘ children? := funext h
  rw [List.filterMap_map, hparts, List.map_flatten, List.map_filterMap]
  rfl

end

theorem isCardMargin_bare (n : Node) : isCardMargin n.bare = isCardMargin n := by
  apply apply_bare
  · intro l
    rfl
  · intro p cs
    cases p <;> rfl

theorem described_bare (caption : String) (n : Node) :
    described caption n.bare = (described caption n).bare := by
  cases n with
  | leaf l =>
    rw [bare_leaf]
    cases l with
    | image i =>
      rw [Leaf.bare, described, described, apply_ite bare, bare_leaf, bare_leaf]
      rfl
    | _ => simp [Leaf.bare, described]
  | parent p cs => rw [bare_parent]; simp [described]

/-! What a node gives way to. -/

theorem map_bare_numberedLabel (name : String) (enumerator : Option String) :
    (numberedLabel name enumerator).map bare = numberedLabel name enumerator := by
  unfold numberedLabel
  split
  · split <;> simp
  · simp

theorem map_bare_numberedPrefix (name : String) (enumerator : Option String) :
    (numberedPrefix name enumerator).map bare = numberedPrefix name enumerator := by
  unfold numberedPrefix
  split
  · split <;> simp
  · simp

@[simp] theorem bare_boldParagraph (cs : List Node) :
    bare (boldParagraph cs) = boldParagraph (cs.map bare) := by
  simp [boldParagraph]

theorem headed_map_bare (name : String) (enumerator : Option String) (cs : List Node) :
    headed name enumerator (cs.map bare) = (headed name enumerator cs).map bare := by
  simp only [headed, splitTitle_map_bare, bind_nonEmpty_map_bare]
  cases (splitTitle cs).1.bind nonEmpty with
  | none => simp [map_bare_numberedLabel]
  | some title => simp [map_bare_numberedLabel]

theorem admonition_map_bare (kind : Option String) (cs : List Node) :
    admonition kind (cs.map bare) = (admonition kind cs).bare := by
  simp only [admonition, splitTitle_map_bare]
  cases (splitTitle cs).1 with
  | none => simp
  | some title => simp

theorem aside_map_bare (cs : List Node) : aside (cs.map bare) = (aside cs).bare := by
  simp only [aside, splitTitle_map_bare, bind_nonEmpty_map_bare]
  cases (splitTitle cs).1.bind nonEmpty with
  | none => simp
  | some title => simp

theorem container_map_bare (kind enumerator : Option String) (cs : List Node) :
    container kind enumerator (cs.map bare) = (container kind enumerator cs).map bare := by
  have hrest := filter_map_bare (p := fun n => (caption? n).isNone && (legend? n).isNone)
    (fun n => by rw [findsBare_caption.isNone_bare, findsBare_legend.isNone_bare]) cs
  have hdescribed (caption : String) (ns : List Node) :
      (ns.map bare).map (described caption) = (ns.map (described caption)).map bare := by
    rw [List.map_map, List.map_map]
    exact List.map_congr_left fun n _ => described_bare caption n
  simp only [container, findsBare_caption.lastOf_map_bare, findsBare_legend.flatten_map_bare, hrest]
  cases lastOf caption? cs with
  | none =>
    split <;> simp [-List.map_map, hdescribed]
  | some caption =>
    split <;> simp [-List.map_map, hdescribed, inlineContent_map_bare, map_bare_numberedPrefix]

/-- A shown title is that of the last part that has one. -/
theorem FindsBare.title_map_bare {children? : Node → Option (List Node)} (h : FindsBare children?)
    (cs : List Node) :
    ((lastOf children? (cs.map bare)).bind fun t => nonEmpty (inlineContent t)) =
      ((lastOf children? cs).bind fun t => nonEmpty (inlineContent t)).map (List.map bare) := by
  rw [h.lastOf_map_bare]
  cases lastOf children? cs with
  | none => rfl
  | some t =>
    show nonEmpty (inlineContent (t.map bare)) = (nonEmpty (inlineContent t)).map (List.map bare)
    rw [inlineContent_map_bare, nonEmpty_map_bare]

theorem card_map_bare (url : Option String) (cs : List Node) :
    card url (cs.map bare) = (card url cs).map bare := by
  have hbody := filter_map_bare (p := fun n => (cardTitle? n).isNone && !isCardMargin n)
    (fun n => by rw [findsBare_cardTitle.isNone_bare, isCardMargin_bare]) cs
  simp only [card, findsBare_cardTitle.title_map_bare, hbody]
  cases (lastOf cardTitle? cs).bind fun t => nonEmpty (inlineContent t) with
  | none => simp
  | some title => cases url <;> simp [Parent.bare]

theorem details_map_bare (cs : List Node) : details (cs.map bare) = (details cs).bare := by
  have hbody := filter_map_bare (p := fun n => (summary? n).isNone)
    (fun n => findsBare_summary.isNone_bare n) cs
  simp only [details, findsBare_summary.title_map_bare, hbody]
  cases (lastOf summary? cs).bind fun s => nonEmpty (inlineContent s) with
  | none => simp
  | some title => simp

theorem directive_map_bare (name : String) (value : Option String) (cs : List Node) :
    directive name value (cs.map bare) = (directive name value cs).map bare := by
  simp only [directive, List.isEmpty_map]
  split
  · rfl
  · cases value <;> rfl

theorem role_map_bare (value : Option String) (cs : List Node) :
    role value (cs.map bare) = (role value cs).map bare := by
  simp only [role, List.isEmpty_map]
  split
  · rfl
  · cases value <;> rfl

theorem degradeLeaf_bare (l : Leaf) : degradeLeaf l.bare = (degradeLeaf l).map bare := by
  cases l <;> rfl

theorem degradeParent_bare (dropSolutions : Bool) (p : Parent) (cs : List Node) :
    degradeParent dropSolutions p.bare (cs.map bare) =
      (degradeParent dropSolutions p cs).map bare := by
  cases p with
  | admonition kind => exact congrArg (fun n => [n]) (admonition_map_bare kind cs)
  | container kind _ enumerator => exact container_map_bare kind enumerator cs
  | exercise _ enumerator => exact headed_map_bare "Exercise" enumerator cs
  | solution =>
    simp only [Parent.bare, degradeParent]
    split
    · rfl
    · exact headed_map_bare "Solution" none cs
  | proof kind _ enumerator => exact headed_map_bare (proofName kind) enumerator cs
  | tabSet | grid | inclusion => rfl
  | tabItem title =>
    simp only [Parent.bare, degradeParent]
    split <;> simp
  | card url => exact card_map_bare url cs
  | details => exact congrArg (fun n => [n]) (details_map_bare cs)
  | aside => exact congrArg (fun n => [n]) (aside_map_bare cs)
  | directive name _ _ value => exact directive_map_bare name value cs
  | role _ value => exact role_map_bare value cs
  | _ => simp [Parent.bare, degradeParent]

mutual

theorem degradeNode_bare (dropSolutions : Bool) : (n : Node) →
    degradeNode dropSolutions n.bare = (degradeNode dropSolutions n).map bare
  | .leaf l => by rw [bare_leaf, degradeNode, degradeNode, degradeLeaf_bare]
  | .parent p cs => by
    rw [bare_parent, degradeNode, degradeNode, degrade_map_bare dropSolutions cs,
      degradeParent_bare]

/-- It does not matter whether what is taken off goes before degrading or afterwards. -/
theorem degrade_map_bare (dropSolutions : Bool) : (ns : List Node) →
    degrade dropSolutions (ns.map bare) = (degrade dropSolutions ns).map bare
  | [] => by rw [List.map_nil, degrade, List.map_nil]
  | n :: ns => by
    have htargets (ms : List Node) : (ms.map bare).map withoutTarget =
        (ms.map withoutTarget).map bare := by
      rw [List.map_map, List.map_map]
      exact List.map_congr_left fun m _ => (m.bare_withoutTarget).symm
    rw [List.map_cons, degrade, degrade, degradeNode_bare dropSolutions n,
      degrade_map_bare dropSolutions ns, htargets, List.map_append]

end

end CommonMark
end MystNotebook
