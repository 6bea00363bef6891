import MystNotebook.Proofs.KeptProse

/-! Empty emphasis. A header of bold or emphasised text is built from a title, a caption or a
summary. Where that is empty, most rewritings show no header or a default, but an admonition shows
the empty title and a container the empty caption. Nothing else makes empty emphasis, and it only
goes with parts that have no place in the result. -/
namespace MystNotebook.CommonMark
open Node

/-- Strong or emphasised text. -/
def isMarked : Node → Bool
  | .parent .strong _ | .parent .emphasis _ => true
  | _ => false

/-- Strong or emphasised text without any content. -/
def isHollow : Node → Bool
  | .parent .strong cs | .parent .emphasis cs => cs.isEmpty
  | _ => false

/-! The parts from which a rewriting builds. -/

@[simp] theorem tally_hollow_text (value : String) (ns : List Node) :
    tally isHollow (.text value :: ns) = tally isHollow ns := by
  rw [tally_cons, Node.text, tally_leaf]
  exact Nat.zero_add _

@[simp] theorem tally_hollow_paragraph (cs : List Node) :
    tally isHollow [.paragraph cs] = tally isHollow cs := tally_parent_of_false rfl

@[simp] theorem tally_hollow_blockquote (cs : List Node) :
    tally isHollow [.blockquote cs] = tally isHollow cs := tally_parent_of_false rfl

@[simp] theorem tally_hollow_emphasis (cs : List Node) :
    tally isHollow [.emphasis cs] = cs.isEmpty.toNat + tally isHollow cs := tally_parent _ _

@[simp] theorem tally_hollow_boldParagraph (cs : List Node) :
    tally isHollow [boldParagraph cs] = cs.isEmpty.toNat + tally isHollow cs := by
  rw [boldParagraph, tally_hollow_paragraph, Node.strong, tally_parent, isHollow]

theorem tally_hollow_boldParagraph_of_ne {cs : List Node} (h : cs ≠ []) :
    tally isHollow [boldParagraph cs] = tally isHollow cs := by
  simp [h]

@[simp] theorem tally_hollow_numberedLabel (name : String) (enumerator : Option String) :
    tally isHollow (numberedLabel name enumerator) = 0 := by
  unfold numberedLabel
  split
  · split <;> rfl
  · rfl

theorem numberedLabel_ne_nil (name : String) (enumerator : Option String) :
    numberedLabel name enumerator ≠ [] := by
  unfold numberedLabel
  split
  · split <;> exact List.cons_ne_nil _ _
  · exact List.cons_ne_nil _ _

@[simp] theorem tally_hollow_numberedPrefix (name : String) (enumerator : Option String) :
    tally isHollow (numberedPrefix name enumerator) = 0 := by
  unfold numberedPrefix
  split
  · split <;> rfl
  · rfl

theorem tally_hollow_appendInline (out : List Node) (n : Node) :
    tally isHollow (appendInline out n) = tally isHollow out + tally isHollow [n] := by
  have hn := tally_unwrapped (f := isHollow) (fun _ => rfl) n
  rw [appendInline]
  split <;> simp [hn]

@[simp] theorem tally_hollow_inlineContent (ns : List Node) :
    tally isHollow (inlineContent ns) = tally isHollow ns := by
  suffices h : ∀ out, tally isHollow (ns.foldl appendInline out) =
      tally isHollow out + tally isHollow ns by
    simpa [inlineContent] using h []
  induction ns with
  | nil => exact fun out => rfl
  | cons n ns ih =>
    intro out
    rw [List.foldl_cons, ih, tally_hollow_appendInline, tally_cons n ns]
    omega

theorem tally_hollow_splitTitle (ns : List Node) :
    tally isHollow ns =
      tally isHollow ((splitTitle ns).1.getD []) + tally isHollow (splitTitle ns).2 := by
  unfold splitTitle
  split
  next cs rest =>
    rw [tally_cons, tally_parent_of_false rfl]
    simp
  next => simp

theorem ne_nil_of_nonEmpty {title : Option (List Node)} {ns : List Node}
    (h : title.bind nonEmpty = some ns) : ns ≠ [] := by
  rintro rfl
  obtain ⟨ms, -, hms⟩ := Option.bind_eq_some_iff.mp h
  obtain rfl := eq_of_nonEmpty hms
  cases hms

/-- A header that is shown only if it has content is not hollow. -/
theorem tally_hollow_nonEmpty {line : List Node → Node}
    (h : ∀ ns, ns ≠ [] → tally isHollow [line ns] = tally isHollow ns)
    (title : Option (List Node)) :
    tally isHollow ((title.bind nonEmpty).map line).toList = tally isHollow (title.getD []) := by
  rw [← tally_bind_nonEmpty]
  cases hshown : title.bind nonEmpty with
  | none => rfl
  | some ns => exact h ns (ne_nil_of_nonEmpty hshown)

/-- A header that has a default is not hollow either. -/
theorem tally_hollow_default (title : Option (List Node)) (default : String) :
    tally isHollow [boldParagraph ((title.bind nonEmpty).getD [.text default])] =
      tally isHollow (title.getD []) := by
  rw [← tally_bind_nonEmpty]
  cases hshown : title.bind nonEmpty with
  | none => rfl
  | some ns => exact tally_hollow_boldParagraph_of_ne (ne_nil_of_nonEmpty hshown)

/-- A header that is shown in any case is hollow if there is nothing to show. -/
theorem tally_hollow_shown {line : List Node → Node} {start : List Node}
    (h : ∀ ns, tally isHollow [line ns] =
      (start ++ inlineContent ns).isEmpty.toNat + tally isHollow ns)
    (caption : Option (List Node)) :
    tally isHollow (caption.map line).toList = tally isHollow (caption.getD []) +
      (caption.any fun ns => (start ++ inlineContent ns).isEmpty).toNat := by
  cases caption with
  | none => rfl
  | some ns =>
    rw [Option.map_some, Option.toList_some, h, Nat.add_comm]
    rfl

/-! One node. -/

theorem tally_hollow_headed (name : String) (enumerator : Option String) (cs : List Node) :
    tally isHollow (headed name enumerator cs) = tally isHollow cs := by
  have htitle := tally_bind_nonEmpty (f := isHollow) (splitTitle cs).1
  simp only [headed]
  rw [tally_cons, tally_hollow_boldParagraph_of_ne (by simp [numberedLabel_ne_nil]),
    tally_hollow_splitTitle cs, ← htitle]
  split
  next title heq => simp [heq]
  next heq => simp [heq]

theorem tally_hollow_admonition (kind : Option String) (cs : List Node) :
    tally isHollow [admonition kind cs] =
      tally isHollow cs + ((splitTitle cs).1.any List.isEmpty).toNat := by
  simp only [admonition]
  rw [tally_hollow_blockquote, tally_cons, tally_hollow_boldParagraph, tally_hollow_splitTitle cs]
  cases (splitTitle cs).1 with
  | none => simp
  | some title =>
    rw [Option.getD_some, Option.getD_some, Option.any_some]
    omega

theorem tally_hollow_aside (cs : List Node) : tally isHollow [aside cs] = tally isHollow cs := by
  simp only [aside]
  rw [tally_hollow_blockquote, tally_append,
    tally_hollow_nonEmpty fun _ => tally_hollow_boldParagraph_of_ne, ← tally_hollow_splitTitle]

/-- What stands in front of a caption. -/
def captionStart (kind enumerator : Option String) : List Node :=
  match kind with
  | some "figure" => numberedPrefix "Figure" enumerator
  | some "table" => numberedPrefix "Table" enumerator
  | _ => []

/-- Whether the caption that a container shows has nothing in it. -/
def hasEmptyCaption (kind enumerator : Option String) (cs : List Node) : Bool :=
  kind != some "code" && (lastOf caption? cs).any fun ns =>
    (captionStart kind enumerator ++ inlineContent ns).isEmpty

theorem tally_hollow_described (caption : String) (n : Node) :
    tally isHollow [described caption n] = tally isHollow [n] := by
  unfold described
  split
  · split <;> rfl
  · rfl

theorem tally_hollow_container (kind enumerator : Option String) (cs : List Node)
    (hcode : kind ≠ some "code") :
    tally isHollow (container kind enumerator cs) + tally isHollow (overwritten .caption cs) =
      tally isHollow cs + (hasEmptyCaption kind enumerator cs).toNat := by
  have hparts := tally_containerParts (f := isHollow) (fun _ => rfl) (fun _ => rfl) cs
  have hcaption : hasEmptyCaption kind enumerator cs = (lastOf caption? cs).any fun ns =>
      (captionStart kind enumerator ++ inlineContent ns).isEmpty := by
    simp [hasEmptyCaption, hcode]
  have hbold (start : List Node) (hstart : tally isHollow start = 0) (ns : List Node) :
      tally isHollow [boldParagraph (start ++ inlineContent ns)] =
        (start ++ inlineContent ns).isEmpty.toNat + tally isHollow ns := by
    simp [hstart]
  have hemphasis (start : List Node) (hstart : tally isHollow start = 0) (ns : List Node) :
      tally isHollow [.paragraph [.emphasis (start ++ inlineContent ns)]] =
        (start ++ inlineContent ns).isEmpty.toNat + tally isHollow ns := by
    simp [hstart]
  rw [hcaption, hparts]
  simp only [container]
  split
  next =>
    have hshown := tally_hollow_shown
      (hemphasis (numberedPrefix "Figure" enumerator) (by simp)) (lastOf caption? cs)
    rw [tally_append, tally_append, tally_map (tally_hollow_described _), hshown, captionStart]
    omega
  next =>
    have hshown := tally_hollow_shown
      (hbold (numberedPrefix "Table" enumerator) (by simp)) (lastOf caption? cs)
    rw [tally_append, tally_append, hshown, captionStart]
    omega
  next => exact absurd rfl hcode
  next =>
    have hstart : captionStart kind enumerator = [] := by
      simp [captionStart]
    have hshown := tally_hollow_shown (hemphasis [] rfl) (lastOf caption? cs)
    simp only [List.nil_append] at hshown
    simp only [hstart, List.nil_append]
    rw [tally_append, tally_append, hshown]
    omega

theorem bind_nonEmpty_inlineContent (part : Option (List Node)) :
    (part.bind fun ns => nonEmpty (inlineContent ns)) =
      (part.map inlineContent).bind nonEmpty := by
  cases part <;> rfl

theorem tally_hollow_map_inlineContent (part : Option (List Node)) :
    tally isHollow ((part.map inlineContent).getD []) = tally isHollow (part.getD []) := by
  cases part <;> simp

theorem tally_hollow_card (url : Option String) (cs : List Node) :
    tally isHollow (card url cs) +
        tally isHollow (cs.filter isCardMargin ++ overwritten .cardTitle cs) =
      tally isHollow cs := by
  have hparts := tally_cardParts (f := isHollow) (fun _ => rfl) cs
  have htitle := tally_hollow_map_inlineContent (lastOf cardTitle? cs)
  simp only [card, bind_nonEmpty_inlineContent]
  rw [tally_append, tally_hollow_nonEmpty fun ns hns => ?_, htitle]
  · omega
  · cases url with
    | none => exact tally_hollow_boldParagraph_of_ne hns
    | some url =>
      rw [tally_hollow_boldParagraph_of_ne (List.cons_ne_nil _ _), tally_parent_of_false rfl]

theorem tally_hollow_details (cs : List Node) :
    tally isHollow [details cs] + tally isHollow (overwritten .summary cs) =
      tally isHollow cs := by
  have hparts := tally_detailsParts (f := isHollow) (fun _ => rfl) cs
  have hsummary := tally_hollow_map_inlineContent (lastOf summary? cs)
  simp only [details, bind_nonEmpty_inlineContent]
  rw [tally_hollow_blockquote, tally_cons, tally_hollow_default, hsummary]
  omega

/-! One rewriting. -/

/-- Whether a parent puts an empty header in front of what its children have given way to. -/
def emptyHeader (p : Parent) (cs : List Node) : Bool :=
  match p with
  | .admonition _ _ => (splitTitle cs).1.any List.isEmpty
  | .container kind _ enumerator _ => hasEmptyCaption kind enumerator cs
  | _ => false

/-- What a parent leaves out of what its children have given way to. -/
def leftOut (dropSolutions : Bool) (p : Parent) (cs : List Node) : List Node :=
  match p with
  | .solution _ _ => if dropSolutions then cs else []
  | p => lostParts p cs

/-- A rewriting makes its own header hollow, and else it keeps what is hollow. -/
theorem tally_hollow_degradeParent (dropSolutions : Bool) (p : Parent) (cs : List Node) :
    tally isHollow (degradeParent dropSolutions p cs) +
        tally isHollow (leftOut dropSolutions p cs) =
      tally isHollow [.parent p cs] + (emptyHeader p cs).toNat := by
  by_cases hp : p.isMystOnly = true
  · have hself : isHollow (.parent p cs) = false := by
      cases p <;> first | rfl | cases hp
    rw [tally_parent_of_false hself]
    cases p with
    | admonition kind => exact tally_hollow_admonition kind cs
    | exercise _ enumerator => exact tally_hollow_headed _ _ cs
    | solution =>
      cases dropSolutions with
      | true => exact Nat.zero_add _
      | false => exact tally_hollow_headed "Solution" none cs
    | proof => exact tally_hollow_headed _ _ cs
    | tabSet | grid | inclusion => rfl
    | tabItem title =>
      simp only [degradeParent, tally_append]
      split <;> exact Nat.zero_add _
    | card url => exact tally_hollow_card url cs
    | details => exact tally_hollow_details cs
    | aside => exact tally_hollow_aside cs
    | container kind _ enumerator =>
      by_cases hcode : kind = some "code"
      · subst hcode
        simp only [degradeParent, container, leftOut, lostParts]
        rw [tally_eq_add_filter (fun n => (caption? n).isSome || (legend? n).isSome) cs]
        simp [emptyHeader, hasEmptyCaption, Nat.add_comm]
      · have hcontainer := tally_hollow_container kind enumerator cs hcode
        simpa only [degradeParent, leftOut, lostParts, if_neg hcode, emptyHeader] using hcontainer
    | directive name _ _ value =>
      cases cs with
      | nil => cases value <;> rfl
      | cons c cs => rfl
    | role _ value =>
      cases cs with
      | nil => cases value <;> rfl
      | cons c cs => rfl
    | _ => cases hp
  · have hkept : leftOut dropSolutions p cs = [] ∧ emptyHeader p cs = false := by
      cases p <;> first | exact ⟨rfl, rfl⟩ | exact absurd rfl hp
    rw [degradeParent_eq_self (by simpa using hp), hkept.1, hkept.2]
    rfl

theorem tally_hollow_degradeLeaf (l : Leaf) : tally isHollow (degradeLeaf l) = 0 := by
  cases l <;> rfl

/-! All nodes. -/

def buildsEmptyHeader (dropSolutions : Bool) : Node → Bool
  | .leaf _ => false
  | .parent p cs => emptyHeader p (degrade dropSolutions cs)

def leftOutOf (dropSolutions : Bool) : Node → List Node
  | .leaf _ => []
  | .parent p cs => leftOut dropSolutions p (degrade dropSolutions cs)

/-- What is left out at any depth. -/
def leftOutAll (dropSolutions : Bool) (ns : List Node) : List Node :=
  (preorderAll ns).flatMap (leftOutOf dropSolutions)

theorem isHollow_withoutTarget (n : Node) : isHollow n.withoutTarget = isHollow n := by
  cases n with
  | leaf l => cases l <;> rfl
  | parent p cs => cases p <;> rfl

mutual

theorem tally_hollow_degradeNode (dropSolutions : Bool) : (n : Node) →
    n.Everywhere (isMarked · = false) →
    tally isHollow (degradeNode dropSolutions n) + tally isHollow (leftOutAll dropSolutions [n]) =
      tally (buildsEmptyHeader dropSolutions) [n]
  | .leaf l, _ => by
    rw [degradeNode, tally_hollow_degradeLeaf, tally_leaf]
    rfl
  | .parent p cs, h => by
    obtain ⟨hp, hcs⟩ := everywhere_parent.mp h
    have hnode := tally_hollow_degradeParent dropSolutions p (degrade dropSolutions cs)
    have hchildren := tally_hollow_degrade dropSolutions cs hcs
    have hmarked : isHollow (.parent p (degrade dropSolutions cs)) = false := by
      cases p <;> first | rfl | cases hp
    have hleft : leftOutAll dropSolutions [.parent p cs] =
        leftOut dropSolutions p (degrade dropSolutions cs) ++ leftOutAll dropSolutions cs := by
      simp [leftOutAll, preorderAll, preorder, leftOutOf]
    -- what the children have left out is lost for good, so that the parts add up over the depths
    rw [tally_parent_of_false hmarked] at hnode
    rw [degradeNode, hleft, tally_append, tally_parent, buildsEmptyHeader]
    omega

theorem tally_hollow_degrade (dropSolutions : Bool) : (ns : List Node) →
    (∀ n ∈ ns, n.Everywhere (isMarked · = false)) →
    tally isHollow (degrade dropSolutions ns) + tally isHollow (leftOutAll dropSolutions ns) =
      tally (buildsEmptyHeader dropSolutions) ns
  | [], _ => rfl
  | n :: ns, h => by
    obtain ⟨hn, hns⟩ := List.forall_mem_cons.mp h
    have hfirst := tally_hollow_degradeNode dropSolutions n hn
    have hrest := tally_hollow_degrade dropSolutions ns hns
    have hleft : leftOutAll dropSolutions (n :: ns) =
        leftOutAll dropSolutions [n] ++ leftOutAll dropSolutions ns := by
      simp [leftOutAll, preorderAll]
    rw [degrade, tally_append, tally_map_withoutTarget isHollow_withoutTarget, hleft, tally_append,
      tally_cons]
    omega

end

/-- Where nothing is strong or emphasised, empty strong or emphasised text is shown if and only if
more parents build an empty header than there are empty headers in the parts left out. -/
theorem exists_hollow_degrade_iff (dropSolutions : Bool) {ns : List Node}
    (h : ∀ n ∈ preorderAll ns, isMarked n = false) :
    (∃ n ∈ preorderAll (degrade dropSolutions ns), isHollow n = true) ↔
      tally isHollow (leftOutAll dropSolutions ns) <
        tally (buildsEmptyHeader dropSolutions) ns := by
  have hsum := tally_hollow_degrade dropSolutions ns (forall_mem_preorderAll.mp h)
  rw [← List.countP_pos_iff, ← tally]
  omega

/-- The empty title is in the header of a card, which is left out, and the empty caption is not. -/
theorem hollow_degrade_caption :
    let titled : Node := .parent (.admonition (some "note") none) [.parent .admonitionTitle []]
    let card : Node := .parent (.card none) [.parent .header [titled], .paragraph [.text "x"]]
    let figure : Node := .parent (.container (some "figure") {} none none)
      [.leaf (.image { url := "a.png" }), .parent .caption [.paragraph []]]
    (∀ n ∈ preorderAll [card, figure], isMarked n = false) ∧
      tally isHollow (leftOutAll false [card, figure]) = 1 ∧
      ∃ n ∈ preorderAll (degrade false [card, figure]), isHollow n = true := by
  intro titled card figure
  have hmarked : ∀ n ∈ preorderAll [card, figure], isMarked n = false := by decide
  exact ⟨hmarked, by decide, (exists_hollow_degrade_iff false hmarked).mpr (by decide)⟩

/-- An empty title and an empty caption become empty bold and empty emphasised text. -/
theorem degrade_emptyHeaders :
    let titled : Node := .parent (.admonition (some "note") none) [.parent .admonitionTitle []]
    let figure : Node := .parent (.container (some "figure") {} none none)
      [.leaf (.image { url := "a.png" }), .parent .caption []]
    (∀ n ∈ preorderAll [titled, figure], isMarked n = false) ∧
      degrade false [titled, figure] = [.blockquote [.paragraph [.strong []]],
        .leaf (.image { url := "a.png" }), .paragraph [.emphasis []]] := by
  decide

end MystNotebook.CommonMark
