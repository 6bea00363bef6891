import MystNotebook.Proofs.NormalForm

/-! The parts of directives, which are children of the parents that they belong to, and which parts
a rewriting holds at any depth, given what the children have become: those of the children that it
shows, for what it builds around them has none. -/
namespace MystNotebook

def Parent.isPart : Parent → Bool
  | .admonitionTitle | .caption | .legend | .cardTitle | .header | .footer | .summary => true
  | _ => false

/-- The kinds of parts that belong to a parent. -/
def Parent.ownParts : Parent → List Parent
  | .admonition _ _ | .exercise _ _ _ | .solution _ _ | .proof _ _ _ | .aside _ _ =>
    [.admonitionTitle]
  | .container _ _ _ _ => [.caption, .legend]
  | .card _ => [.cardTitle, .header, .footer]
  | .details _ => [.summary]
  | _ => []

def Node.isPart : Node → Bool
  | .leaf _ => false
  | .parent p _ => p.isPart

/-- Whether the node may be a child of `p`. -/
def Node.fits (p : Parent) : Node → Bool
  | .leaf _ => true
  | .parent q _ => !q.isPart || q ∈ p.ownParts

/-- Whether all children of the node may be there. -/
def Node.childrenFit : Node → Bool
  | .leaf _ => true
  | .parent p cs => cs.all (Node.fits p)

namespace CommonMark
open Node

/-- Every part is a child of a parent that it belongs to. -/
structure PartsInPlace (ns : List Node) : Prop where
  top : ∀ n ∈ ns, n.isPart = false
  below : ∀ n ∈ preorderAll ns, n.childrenFit = true

/-! Parts at any depth. -/

/-- A parent of the kind is among the nodes or below them. -/
def Has (q : Parent) (ns : List Node) : Prop := ∃ cs, .parent q cs ∈ preorderAll ns

section
variable {q : Parent}

@[simp] theorem not_has_nil : ¬ Has q [] := by
  rintro ⟨cs, h⟩
  cases h

@[simp] theorem has_append {ms ns : List Node} : Has q (ms ++ ns) ↔ Has q ms ∨ Has q ns := by
  simp [Has, preorderAll_eq_flatMap, exists_or]

theorem has_cons {n : Node} {ns : List Node} : Has q (n :: ns) ↔ Has q [n] ∨ Has q ns :=
  @has_append q [n] ns

theorem has_flatMap {α : Type} {xs : List α} {f : α → List Node} :
    Has q (xs.flatMap f) ↔ ∃ x ∈ xs, Has q (f x) := by
  induction xs with
  | nil => simp
  | cons x xs ih => simp [ih]

@[simp] theorem not_has_leaf {l : Leaf} : ¬ Has q [.leaf l] := by
  rintro ⟨cs, h⟩
  simp [preorderAll, preorder] at h

theorem has_parent {p : Parent} {cs : List Node} : Has q [.parent p cs] ↔ p = q ∨ Has q cs := by
  constructor
  · rintro ⟨ds, h⟩
    simp only [preorderAll, preorder, List.append_nil, List.mem_cons, Node.parent.injEq] at h
    rcases h with ⟨rfl, -⟩ | h
    · exact .inl rfl
    · exact .inr ⟨ds, h⟩
  · rintro (rfl | ⟨ds, h⟩)
    · exact ⟨cs, by simp [preorderAll, preorder]⟩
    · exact ⟨ds, by simp [preorderAll, preorder, h]⟩

@[simp] theorem has_text {value : String} {ns : List Node} :
    Has q (.text value :: ns) ↔ Has q ns := by
  rw [has_cons]
  simp [Node.text]

@[simp] theorem not_has_numberedLabel {name : String} {enumerator : Option String} :
    ¬ Has q (numberedLabel name enumerator) := by
  unfold numberedLabel
  split
  · split <;> simp [Node.text]
  · simp [Node.text]

@[simp] theorem not_has_numberedPrefix {name : String} {enumerator : Option String} :
    ¬ Has q (numberedPrefix name enumerator) := by
  unfold numberedPrefix
  split
  · split <;> simp [Node.text]
  · simp

theorem has_nonEmpty {title : Option (List Node)} :
    Has q ((title.bind nonEmpty).getD []) ↔ Has q (title.getD []) := by
  cases title with
  | none => rfl
  | some ns =>
    rw [Option.bind_some, nonEmpty]
    split
    next hempty => simp [List.isEmpty_iff.mp hempty]
    next => rfl

@[simp] theorem has_map_described {caption : String} {ns : List Node} :
    Has q (ns.map (described caption)) ↔ Has q ns := by
  induction ns with
  | nil => rfl
  | cons n ns ih =>
    have hn : Has q [described caption n] ↔ Has q [n] := by
      unfold described
      split
      · split <;> simp
      · rfl
    rw [List.map_cons, has_cons, hn, ih, ← has_cons]

/-- The caption that is shown, with what is put around it. -/
theorem has_shown {line : List Node → Node} (h : ∀ ns, Has q [line ns] ↔ Has q ns)
    (caption : Option (List Node)) :
    Has q (caption.map line).toList ↔ Has q (caption.getD []) := by
  cases caption with
  | none => rfl
  | some ns => exact h ns

variable (hq : q.isPart = true)

include hq

theorem has_parent_of_not_part {p : Parent} (hp : p.isPart = false) {cs : List Node} :
    Has q [.parent p cs] ↔ Has q cs := by
  rw [has_parent]
  refine or_iff_right ?_
  rintro rfl
  rw [hq] at hp
  cases hp

theorem withoutTarget_eq_iff {p : Parent} : p.withoutTarget = q ↔ p = q := by
  cases p <;> first
    | rfl
    | exact iff_of_false (fun h => by simp [← h, Parent.withoutTarget, Parent.isPart] at hq)
        (fun h => by simp [← h, Parent.isPart] at hq)

theorem has_map_withoutTarget {ns : List Node} :
    Has q (ns.map Node.withoutTarget) ↔ Has q ns := by
  induction ns with
  | nil => rfl
  | cons n ns ih =>
    rw [List.map_cons, has_cons, ih, has_cons (n := n)]
    cases n with
    | leaf l => simp [Node.withoutTarget]
    | parent p cs => simp only [Node.withoutTarget, has_parent, withoutTarget_eq_iff hq]

theorem has_unwrapped {n : Node} : Has q (unwrapped n) ↔ Has q [n] := by
  unfold unwrapped
  split
  next cs => exact (has_parent_of_not_part hq rfl).symm
  next => rfl

theorem has_inlineContent {ns : List Node} : Has q (inlineContent ns) ↔ Has q ns := by
  suffices h : ∀ out, Has q (ns.foldl appendInline out) ↔ Has q out ∨ Has q ns by
    simpa [inlineContent] using h []
  induction ns with
  | nil => simp
  | cons n ns ih =>
    intro out
    have hfirst : Has q (appendInline out n) ↔ Has q out ∨ Has q [n] := by
      rw [appendInline]
      split <;> simp [has_unwrapped hq]
    rw [List.foldl_cons, ih, hfirst, @has_cons q n ns, or_assoc]

theorem has_boldParagraph {cs ns : List Node} :
    Has q (boldParagraph cs :: ns) ↔ Has q cs ∨ Has q ns := by
  rw [has_cons, boldParagraph, Node.paragraph, Node.strong, has_parent_of_not_part hq rfl,
    has_parent_of_not_part hq rfl]

theorem has_blockquote {cs : List Node} : Has q [.blockquote cs] ↔ Has q cs :=
  has_parent_of_not_part hq rfl

/-! The rewritings, given what the children have become. -/

/-- What a title that is split off and the body hold. -/
def TitleOrBodyHas (q : Parent) (ns : List Node) : Prop :=
  Has q ((splitTitle ns).1.getD []) ∨ Has q (splitTitle ns).2

theorem has_headed {name : String} {enumerator : Option String} {ns : List Node} :
    Has q (headed name enumerator ns) ↔ TitleOrBodyHas q ns := by
  rw [TitleOrBodyHas, ← has_nonEmpty]
  simp only [headed, has_boldParagraph hq, has_append, not_has_numberedLabel, false_or]
  split
  next title heq => simp [heq]
  next heq => simp [heq]

theorem has_admonition {kind : Option String} {ns : List Node} :
    Has q [admonition kind ns] ↔ TitleOrBodyHas q ns := by
  simp only [admonition, has_blockquote hq, has_boldParagraph hq, TitleOrBodyHas]
  cases (splitTitle ns).1 <;> simp

theorem has_aside {ns : List Node} : Has q [aside ns] ↔ TitleOrBodyHas q ns := by
  rw [TitleOrBodyHas, ← has_nonEmpty]
  simp only [aside, has_blockquote hq, has_append]
  cases (splitTitle ns).1.bind nonEmpty <;> simp [has_boldParagraph hq]

theorem has_container {kind enumerator : Option String} {ns : List Node} :
    Has q (container kind enumerator ns) ↔
      Has q (ns.filter fun n => (caption? n).isNone && (legend? n).isNone) ∨
        kind ≠ some "code" ∧
          (Has q ((lastOf caption? ns).getD []) ∨ Has q (ns.filterMap legend?).flatten) := by
  have hemphasis : ∀ start ns, ¬ Has q start →
      (Has q [.paragraph [.emphasis (start ++ inlineContent ns)]] ↔ Has q ns) := by
    intro start ns hstart
    rw [Node.paragraph, Node.emphasis, has_parent_of_not_part hq rfl,
      has_parent_of_not_part hq rfl, has_append, has_inlineContent hq]
    exact or_iff_right hstart
  have hbold : ∀ start ns, ¬ Has q start →
      (Has q [boldParagraph (start ++ inlineContent ns)] ↔ Has q ns) := by
    intro start ns hstart
    simp [has_boldParagraph hq, has_inlineContent hq, hstart]
  simp only [container]
  split
  next =>
    have hshown := has_shown
      (fun ns => hemphasis (numberedPrefix "Figure" enumerator) ns not_has_numberedPrefix)
      (lastOf caption? ns)
    simp only [has_append, has_map_described, hshown]
    simp [or_assoc]
  next =>
    have hshown := has_shown
      (fun ns => hbold (numberedPrefix "Table" enumerator) ns not_has_numberedPrefix)
      (lastOf caption? ns)
    simp only [has_append, hshown]
    simp only [ne_eq, Option.some.injEq, String.reduceEq, not_false_eq_true, true_and]
    tauto
  next => simp
  next hcode =>
    have hshown := has_shown (fun ns => hemphasis [] ns not_has_nil) (lastOf caption? ns)
    have hkind : kind ≠ some "code" := hcode
    simp only [List.nil_append] at hshown
    simp only [has_append, hshown]
    simp [hkind, or_assoc]

theorem has_lastShown {part : Option (List Node)} :
    Has q ((part.bind fun ns => nonEmpty (inlineContent ns)).getD []) ↔ Has q (part.getD []) := by
  have hpart : Has q (((part.map inlineContent).bind nonEmpty).getD []) ↔
      Has q ((part.map inlineContent).getD []) := has_nonEmpty
  cases part with
  | none => rfl
  | some ns => exact hpart.trans (has_inlineContent hq)

theorem has_card {url : Option String} {ns : List Node} :
    Has q (card url ns) ↔ Has q ((lastOf cardTitle? ns).getD []) ∨
      Has q (ns.filter fun n => (cardTitle? n).isNone && !isCardMargin n) := by
  rw [← has_lastShown hq]
  simp only [card, has_append]
  refine or_congr_left ?_
  cases (lastOf cardTitle? ns).bind fun t => nonEmpty (inlineContent t) with
  | none => rfl
  | some title =>
    cases url with
    | none => simp [has_boldParagraph hq]
    | some url =>
      have hlink : Has q [.parent (.link url none) title] ↔ Has q title :=
        has_parent_of_not_part hq rfl
      simp [has_boldParagraph hq, hlink]

theorem has_details {ns : List Node} :
    Has q [details ns] ↔ Has q ((lastOf summary? ns).getD []) ∨
      Has q (ns.filter fun n => (summary? n).isNone) := by
  rw [← has_lastShown hq]
  simp only [details, has_blockquote hq, has_boldParagraph hq]
  refine or_congr_left ?_
  cases (lastOf summary? ns).bind fun t => nonEmpty (inlineContent t) <;> simp

end

end CommonMark
end MystNotebook
