import MystNotebook.Markdown.Write

/-! The parts of a written directive: its name, its argument, its options and its body. Every kind
of node that is written as a directive is these four between two fences. -/
namespace MystNotebook.Markdown
open Draft

def directiveName : Node → String
  | .leaf _ => "image"
  | .parent p _ =>
    match p with
    | .admonition kind _ => kind.getD "admonition"
    | .container kind _ _ _ => kind.getD ""
    | .exercise _ _ _ => "exercise"
    | .solution _ _ => "solution"
    | .proof kind _ _ => "prf:" ++ kind.getD "proof"
    | .tabSet => "tab-set"
    | .tabItem _ => "tab-item"
    | .card _ => "card"
    | .grid _ => "grid"
    | .details _ => "dropdown"
    | .aside kind _ => kind.getD "aside"
    | .directive name _ _ _ => name
    | _ => ""

/-- The kind of the child that is the title of a directive. -/
def titleKind : Parent → Parent → Bool
  | .container _ _ _ _ => isCaption
  | .card _ => isCardTitle
  | .details _ => isSummary
  | _ => isTitle

/-- What stands behind the name; a title depends on what it is written after. -/
def directiveArgument (n : Node) (d : Draft) : Option String :=
  match n with
  | .leaf (.image i) => some i.url
  | .leaf _ => none
  | .parent p cs =>
    match p with
    | .admonition _ _ | .exercise _ _ _ | .solution _ _ | .proof _ _ _ | .card _ | .details _
    | .aside _ _ => (writeTitle (titleKind p) cs d).1
    | .container kind _ _ _ =>
      if kind = some "figure" then (firstImage cs).map (·.url)
      else (writeTitle (titleKind p) cs d).1
    | .tabItem title => some title
    | .grid columns => columns.map (numberList " ")
    | .directive _ args _ _ => args
    | _ => none

def figureOptions (image : Option Image) : List (String × String) :=
  some? "alt" (image.bind (·.alt)) ++ some? "width" (image.bind (·.width))

def directiveOptions : Node → List (String × String)
  | .leaf (.image i) => imageOptions i
  | .leaf _ => []
  | .parent p cs =>
    match p with
    | .admonition _ cssClass | .aside _ cssClass => some? "class" cssClass
    | .container kind target _ cssClass =>
      some? "label" target.label ++ some? "class" cssClass ++
        if kind = some "figure" then figureOptions (firstImage cs) else []
    | .exercise target _ cssClass | .solution target cssClass =>
      some? "label" target.label ++ some? "class" cssClass
    | .proof _ target _ => some? "label" target.label
    | .card url => some? "link" url
    | .details opened => if opened == some true then [("open", "")] else []
    | .directive _ _ options _ => rawOptions options
    | _ => []

def cardBody (cs : List Node) (d : Draft) : Draft :=
  let d := writeParts isHeader cs d
  let d := if cs.any (ofKind isHeader) then d.newline.add "^^^\n" else d
  let d := writeBlocks isCardPart false cs d
  if cs.any (ofKind isFooter) then writeParts isFooter cs (d.newline.add "+++\n") else d

def rawDirectiveBody (value : Option String) (cs : List Node) (d : Draft) : Draft :=
  match value, cs.isEmpty with
  | some value, true => d.rawBody value.toList
  | _, _ => writeBlocks nowhere false cs d

def directiveBody : Node → Draft → Draft
  | .leaf _ => id
  | .parent p cs =>
    match p with
    | .admonition _ _ | .exercise _ _ _ | .solution _ _ | .proof _ _ _ | .details _ | .aside _ _ =>
      writeBlocks (ofKind (titleKind p)) false cs
    | .container kind _ _ _ =>
      writeBlocks (if kind = some "figure" then isImage else ofKind (titleKind p)) false cs
    | .card _ => cardBody cs
    | .directive _ _ _ value => rawDirectiveBody value cs
    | _ => writeBlocks nowhere false cs

/-- The node as a directive, with the fences that it is given. -/
def Draft.directiveOf (d : Draft) (n : Node) (argument : Option String) : Draft :=
  d.directive (directiveDepthAll n.children) (directiveName n) argument (directiveOptions n)
    (directiveBody n)

/-- A title is captured, so it leaves the page as it is. -/
theorem page_writeTitle (kind : Parent → Bool) (ns : List Node) (d : Draft) :
    (writeTitle kind ns d).2.page = d.page := by
  induction ns with
  | nil => rw [writeTitle]
  | cons n ns ih =>
    cases n with
    | leaf l => rw [writeTitle, ih]
    | parent p cs =>
      rw [writeTitle]
      split
      · rfl
      · exact ih

/-- No kind of directive has another form. What stands behind the name is the same wherever the
directive is written, or else it is a title, which is captured before the directive starts. -/
theorem writeNode_directive_cases {p : Parent} {cs : List Node}
    (h : writesDirective (.parent p cs) = true) :
    (∃ argument, ∀ d, directiveArgument (.parent p cs) d = argument ∧
      writeNode (.parent p cs) d = d.directiveOf (.parent p cs) argument) ∨
    ∀ d, directiveArgument (.parent p cs) d = (writeTitle (titleKind p) cs d).1 ∧
      writeNode (.parent p cs) d = (writeTitle (titleKind p) cs d).2.directiveOf (.parent p cs)
        (writeTitle (titleKind p) cs d).1 := by
  cases p with
  | container kind t enumerator cssClass =>
    simp only [writesDirective, Bool.or_eq_true, beq_iff_eq] at h
    rcases h with rfl | rfl
    · refine .inl ⟨(firstImage cs).map (·.url), fun d => ⟨rfl, ?_⟩⟩
      simp [writeNode, directiveOf, directiveName, directiveOptions, figureOptions, directiveBody,
        Node.children]
    · refine .inr fun d => ⟨rfl, ?_⟩
      simp [writeNode, directiveOf, directiveName, directiveOptions, directiveBody, Node.children,
        titleKind]
  | admonition | exercise | solution | proof | aside | details | card =>
    exact .inr fun _ => ⟨rfl, rfl⟩
  | tabSet | tabItem | grid | directive => exact .inl ⟨_, fun _ => ⟨rfl, rfl⟩⟩
  | _ => cases h

theorem writeNode_directive {p : Parent} {cs : List Node}
    (h : writesDirective (.parent p cs) = true) (d : Draft) :
    ∃ d' : Draft, d'.page = d.page ∧
      writeNode (.parent p cs) d =
        d'.directiveOf (.parent p cs) (directiveArgument (.parent p cs) d) := by
  rcases writeNode_directive_cases h with ⟨argument, hfixed⟩ | htitled
  · obtain ⟨hargument, hwritten⟩ := hfixed d
    exact ⟨d, rfl, by rw [hargument, hwritten]⟩
  · obtain ⟨hargument, hwritten⟩ := htitled d
    exact ⟨(writeTitle (titleKind p) cs d).2, page_writeTitle _ cs d, by rw [hargument, hwritten]⟩

/-- An image in block position is a directive without a body. -/
theorem block_imageDirectiveText (d : Draft) (i : Image) :
    d.block (imageDirectiveText i) = d.directiveOf (.leaf (.image i)) (some i.url) := by
  have hlines (d : Draft) (s t : List Char) : (d.block s).block t = d.block (s ++ t) := by
    simp [block, newline, atLineStart, push]
  rw [directiveOf, Draft.directive]
  show _ = (d.block _).block _
  rw [hlines, imageDirectiveText, List.append_assoc]
  rfl

/-- A node that is not phrasing content has lines of its own wherever it stands. -/
theorem asBlock_of_not_isInline {n : Node} (h : isInline n = false) (d : Draft) :
    d.asBlock n (writeNode n) = writeNode n d := by
  unfold asBlock
  split
  next => cases h
  next => rw [h, if_neg Bool.false_ne_true]

theorem asBlock_directive {n : Node} (h : writesDirective n = true) (d : Draft) :
    ∃ d' : Draft, d'.page = d.page ∧
      d.asBlock n (writeNode n) = d'.directiveOf n (directiveArgument n d) := by
  cases n with
  | leaf l =>
    cases l with
    | image i =>
      have hi : i.hasDirectiveAttributes = true := h
      refine ⟨d, rfl, ?_⟩
      rw [asBlock, if_pos hi]
      exact block_imageDirectiveText d i
    | _ => cases h
  | parent p cs =>
    have hinline : isInline (.parent p cs) = false := by
      cases p with
      | emphasis | strong | link | crossReference | role => cases h
      | _ => rfl
    rw [asBlock_of_not_isInline hinline]
    exact writeNode_directive h d

end MystNotebook.Markdown
