import MystNotebook.Proofs.DirectiveParts
import MystNotebook.Proofs.UniformWriters

/-! Every node is written by a uniform writer: what stands before it matters only by the end of it,
and above an empty line, at most, until something has been shown. -/
namespace MystNotebook.Markdown
open Text Draft

/-- There is no title, or it is a line that a uniform writer is captured for. -/
def CapturesTitle (write : Draft → Option String × Draft) : Prop :=
  (∀ d, write d = (none, d)) ∨
    ∃ title, Uniform title ∧ ∀ d, write d =
      (some (String.ofList (d.captureLine title).1), (d.captureLine title).2)

/-- What is written for a list of nodes, in each of its roles, is uniform. -/
structure ListUniform (ns : List Node) : Prop where
  blocks : ∀ skip started, Uniform (writeBlocks skip started ns)
  inlines : Uniform (writeInlines ns)
  unwrapped : Uniform (writeUnwrapped ns)
  title : ∀ kind, CapturesTitle (writeTitle kind ns)
  parts : ∀ kind, Uniform (writeParts kind ns)
  itemBody : ∀ spread started, Uniform (writeItemBody spread started ns)
  items : ∀ ordered spread number, Uniform (writeItems ordered spread number ns)
  rows : ∀ columns align first, Uniform (writeRows columns align first ns)
  cells : Uniform (writeCells ns)
  definitions : ∀ started, Uniform (writeDefinitions started ns)

/-! Parents, from what their children write. -/

variable {p : Parent} {cs : List Node}

theorem uniform_directiveBody {n : Node} (hw : ListUniform n.children) :
    Uniform (directiveBody n) := by
  cases n with
  | leaf l => exact uniform_id
  | parent p cs =>
    cases p with
    | card url =>
      have hheader : Uniform fun d : Draft =>
          if cs.any (ofKind isHeader) then d.newline.add "^^^\n" else d := by
        cases cs.any (ofKind isHeader) with
        | true => exact uniform_newline.andThen (uniform_push _)
        | false => exact uniform_id
      have hfooter : Uniform fun d : Draft =>
          if cs.any (ofKind isFooter) then writeParts isFooter cs (d.newline.add "+++\n")
          else d := by
        cases cs.any (ofKind isFooter) with
        | true => exact (uniform_newline.andThen (uniform_push _)).andThen (hw.parts isFooter)
        | false => exact uniform_id
      exact (((hw.parts isHeader).andThen hheader).andThen
        (hw.blocks isCardPart false)).andThen hfooter
    | directive name args options value =>
      show Uniform (rawDirectiveBody value cs)
      unfold rawDirectiveBody
      split
      · exact uniform_rawBody _
      · exact hw.blocks nowhere false
    | _ => exact hw.blocks _ false

theorem uniform_directiveNode (h : writesDirective (.parent p cs) = true) (hw : ListUniform cs) :
    Uniform (writeNode (.parent p cs)) := by
  have hbody : Uniform (directiveBody (.parent p cs)) := uniform_directiveBody hw
  have hfixed (argument : Option String) : Uniform (·.directiveOf (.parent p cs) argument) :=
    uniform_directive hbody _ _ argument _
  rcases writeNode_directive_cases h with ⟨argument, heq⟩ | heq
  · exact (hfixed argument).congr fun d => (heq d).2
  · rcases hw.title (titleKind p) with hnone | ⟨title, htitle, hsome⟩
    · refine (hfixed none).congr fun d => ?_
      rw [(heq d).2, hnone]
    · have htitled : Uniform fun d => (d.captureLine title).2.directiveOf (.parent p cs)
          (some (String.ofList (d.captureLine title).1)) := uniform_titled htitle hbody _ _ _
      refine htitled.congr fun d => ?_
      rw [(heq d).2, hsome]

/-- Code under a caption, which is one of its options. -/
theorem uniform_captionedCode (hw : ListUniform cs) (info value : List Char)
    (options : List (String × String)) :
    Uniform fun d => (writeTitle isCaption cs d).2.block
      (fencedText info (options ++ some? "caption" (writeTitle isCaption cs d).1) value) := by
  rcases hw.title isCaption with hnone | ⟨title, htitle, hsome⟩
  · refine (uniform_block (fencedText info options value)).congr fun d => ?_
    rw [hnone]
    simp [some?]
  · have hcaptioned := uniform_captured htitle (fun s d => d.block (fencedText info
      (options ++ some? "caption" (some (String.ofList (joinedLine s)))) value))
      (fun s => uniform_block _) fun s s' _ => settles_block (likewise_fencedText _ _ _ _ _)
    refine hcaptioned.congr fun d => ?_
    rw [hsome]
    rfl

theorem uniform_parent (p : Parent) (hw : ListUniform cs) : Uniform (writeNode (.parent p cs)) := by
  by_cases hdirective : writesDirective (.parent p cs) = true
  · exact uniform_directiveNode hdirective hw
  cases p with
  | block kind data target =>
    exact (uniform_target target.label).andThen (hw.blocks nowhere false)
  | heading level target =>
    exact (((((uniform_target target.label).andThen uniform_newline).andThen
      (uniform_push _)).andThen hw.inlines).andThen (uniform_push ['\n'])).andThen
      uniform_atLineStart
  | paragraph =>
    exact ((uniform_newline.andThen hw.inlines).andThen (uniform_push ['\n'])).andThen
      uniform_atLineStart
  | blockquote =>
    have hquote := uniform_layout (hw.blocks nowhere false)
      fun s s' => (solid_quoteText s).likewise (solid_quoteText s')
    exact (uniform_newline.andThen hquote).andThen uniform_atLineStart
  | list ordered start spread =>
    exact (uniform_newline.andThen (hw.items ordered spread _)).andThen uniform_atLineStart
  | table align =>
    cases htable : cs.any isTableRow with
    | true =>
      refine ((uniform_newline.andThen (hw.rows (columnCount cs) align true)).andThen
        uniform_atLineStart).congr fun d => ?_
      simp only [writeNode, htable, if_true]
    | false =>
      refine uniform_newline.congr fun d => ?_
      simp only [writeNode, htable, Bool.false_eq_true, if_false]
  | definitionList =>
    exact (uniform_newline.andThen (hw.definitions false)).andThen uniform_atLineStart
  | tableRow | tableCell | definitionTerm | definitionDescription => exact uniform_id
  | emphasis => exact uniform_wrapped hw.inlines ['*']
  | strong => exact uniform_wrapped hw.inlines ['*', '*']
  | link url title => exact uniform_link hw.inlines url.toList title
  | crossReference kind target =>
    cases htarget : target.identifier <|> target.label with
    | none =>
      have hreport := uniform_report "crossReference"
        "cross reference has no target; writing its text"
      refine (hreport.andThen hw.inlines).congr fun d => ?_
      simp only [writeNode, htarget]
    | some destination =>
      have hinside : Uniform (if cs.isEmpty then
          (·.inline (target.label.getD destination).toList) else writeInlines cs) := by
        split
        · exact uniform_inline _
        · exact hw.inlines
      refine (uniform_link hinside ('#' :: destination.toList) none).congr fun d => ?_
      simp only [writeNode, htarget]
  | listItem | inclusion => exact hw.blocks nowhere false
  | admonitionTitle | caption | legend | cardTitle | header | footer | summary =>
    exact uniform_flow hw.inlines (hw.blocks nowhere false) _
  | container kind target enumerator cssClass =>
    by_cases hcode : kind = some "code"
    · subst hcode
      exact uniform_captionedCode hw _ _ _
    · refine (hw.blocks nowhere false).congr fun d => ?_
      simp only [writeNode]
      split
      · exact absurd rfl hdirective
      · exact absurd rfl hdirective
      · exact absurd rfl hcode
      · rfl
  | role name value =>
    cases value with
    | some value => exact (uniform_inline _).andThen (uniform_inlineCode value.toList)
    | none => exact hw.inlines
  | other name fields =>
    have hreport := uniform_report name "no Markdown form for this node; writing its content"
    cases hempty : cs.isEmpty with
    | true =>
      cases hvalue : fields.get? "value" with
      | none =>
        refine hreport.congr fun d => ?_
        simp only [writeNode, hempty, if_true, hvalue]
      | some v =>
        cases v with
        | string value =>
          refine (hreport.andThen (uniform_inline value.toList)).congr fun d => ?_
          simp only [writeNode, hempty, if_true, hvalue]
        | _ =>
          refine hreport.congr fun d => ?_
          simp only [writeNode, hempty, if_true, hvalue]
    | false =>
      have hflow := uniform_flow hw.inlines (hw.blocks nowhere false) (cs.all isInline)
      refine (hreport.andThen hflow).congr fun d => ?_
      simp only [writeNode, hempty, Bool.false_eq_true, if_false]
  | _ => exact absurd rfl hdirective

/-! Lists. -/

theorem listUniform_nil : ListUniform [] where
  blocks _ _ := uniform_id
  inlines := uniform_id
  unwrapped := uniform_id
  title _ := .inl fun _ => rfl
  parts _ := uniform_id
  itemBody _ _ := uniform_id
  items _ _ _ := uniform_id
  rows _ _ _ := uniform_id
  cells := uniform_id
  definitions _ := uniform_id

variable {n : Node} {ns : List Node}

theorem uniform_item (hcs : ListUniform cs) (hns : ListUniform ns)
    (ordered spread itemSpread : Bool) (number : UInt32) :
    Uniform (writeItems ordered spread number (.parent (.listItem itemSpread) cs :: ns)) := by
  have hitem := uniform_layout (hcs.itemBody (spread || itemSpread) false)
    fun s s' => (solid_marker ordered number s).likewise (solid_marker ordered number s')
  have hspread : Uniform fun d : Draft =>
      if spread && ns.any isListItem then d.push ['\n'] else d := by
    split
    · exact uniform_push ['\n']
    · exact uniform_id
  exact (hitem.andThen hspread).andThen (hns.items ordered spread (number + 1))

theorem uniform_row (hcs : ListUniform cs) (hns : ListUniform ns) (columns : Nat)
    (align : List (Option Align)) (first : Bool) :
    Uniform (writeRows columns align first (.parent .tableRow cs :: ns)) := by
  have hcells := (uniform_push ['|']).andThen hcs.cells
  have hmissing := hcells.andThen (uniform_push (missingCells (columns - cs.length) ++ ['\n']))
  have hseparator : Uniform fun d : Draft =>
      if first then d.push (separatorText columns align) else d := by
    split
    · exact uniform_push _
    · exact uniform_id
  exact (hmissing.andThen hseparator).andThen (hns.rows columns align false)

theorem uniform_cell (hcs : ListUniform cs) (hns : ListUniform ns) (header : Option Bool) :
    Uniform (writeCells (.parent (.tableCell header) cs :: ns)) :=
  ((uniform_push [' ']).andThen (uniform_layout hcs.unwrapped likewise_cellText)).andThen hns.cells

theorem uniform_definitionTerm (hcs : ListUniform cs) (hns : ListUniform ns) (started : Bool) :
    Uniform (writeDefinitions started (.parent .definitionTerm cs :: ns)) :=
  ((uniform_separated started).andThen (uniform_term hcs.unwrapped)).andThen (hns.definitions true)

theorem uniform_description (hcs : ListUniform cs) (hns : ListUniform ns) (started : Bool) :
    Uniform (writeDefinitions started (.parent .definitionDescription cs :: ns)) :=
  (uniform_layout (hcs.blocks nowhere false)
    fun s s' => (solid_descriptionText s).likewise (solid_descriptionText s')).andThen
    (hns.definitions true)

theorem capturesTitle_cons (hcs : ListUniform n.children) (hns : ListUniform ns)
    (kind : Parent → Bool) : CapturesTitle (writeTitle kind (n :: ns)) := by
  cases n with
  | leaf l => exact hns.title kind
  | parent p cs =>
    by_cases hp : kind p = true
    · refine .inr ⟨writeUnwrapped cs, hcs.unwrapped, fun d => ?_⟩
      rw [writeTitle, if_pos hp]
    · rcases hns.title kind with hnone | ⟨title, htitle, hsome⟩
      · refine .inl fun d => ?_
        rw [writeTitle, if_neg hp, hnone]
      · refine .inr ⟨title, htitle, fun d => ?_⟩
        rw [writeTitle, if_neg hp, hsome]

theorem listUniform_cons (hn : Uniform (writeNode n)) (hcs : ListUniform n.children)
    (hns : ListUniform ns) : ListUniform (n :: ns) where
  blocks skip started := by
    by_cases hskip : skip n = true
    · refine (hns.blocks skip started).congr fun d => ?_
      rw [writeBlocks, if_pos hskip]
    · refine (((uniform_separated started).andThen (uniform_asBlock n hn)).andThen
        (hns.blocks skip true)).congr fun d => ?_
      rw [writeBlocks, if_neg hskip]
  inlines := hn.andThen hns.inlines
  unwrapped := by
    cases n with
    | leaf l => exact hn.andThen hns.unwrapped
    | parent p cs =>
      cases p with
      | paragraph => exact hcs.inlines.andThen hns.unwrapped
      | _ => exact hn.andThen hns.unwrapped
  title := capturesTitle_cons hcs hns
  parts kind := by
    have hfirst : Uniform fun d => if ofKind kind n then writeNode n d else d := by
      split
      · exact hn
      · exact uniform_id
    exact hfirst.andThen (hns.parts kind)
  itemBody spread started := by
    have hgap : Uniform fun d : Draft =>
        if started then (if spread then d.blankLine else d.newline) else d := by
      split
      · split
        · exact uniform_blankLine
        · exact uniform_newline
      · exact uniform_id
    exact (hgap.andThen (uniform_asBlock n hn)).andThen (hns.itemBody spread true)
  items ordered spread number := by
    cases n with
    | leaf l => exact hns.items ordered spread number
    | parent p cs =>
      cases p with
      | listItem itemSpread => exact uniform_item hcs hns ordered spread itemSpread number
      | _ => exact hns.items ordered spread number
  rows columns align first := by
    cases n with
    | leaf l => exact hns.rows columns align first
    | parent p cs =>
      cases p with
      | tableRow => exact uniform_row hcs hns columns align first
      | _ => exact hns.rows columns align first
  cells := by
    cases n with
    | leaf l => exact hns.cells
    | parent p cs =>
      cases p with
      | tableCell header => exact uniform_cell hcs hns header
      | _ => exact hns.cells
  definitions started := by
    cases n with
    | leaf l => exact hns.definitions true
    | parent p cs =>
      cases p with
      | definitionTerm => exact uniform_definitionTerm hcs hns started
      | definitionDescription => exact uniform_description hcs hns started
      | _ => exact hns.definitions true

mutual

theorem uniform_node : (n : Node) → Uniform (writeNode n) ∧ ListUniform n.children
  | .leaf l => ⟨uniform_leaf l, listUniform_nil⟩
  | .parent p cs => ⟨uniform_parent p (listUniform cs), listUniform cs⟩

/-- Nodes are written alike wherever the drafts are alike. -/
theorem listUniform : (ns : List Node) → ListUniform ns
  | [] => listUniform_nil
  | n :: ns => by
    obtain ⟨hn, hcs⟩ := uniform_node n
    exact listUniform_cons hn hcs (listUniform ns)

end

end MystNotebook.Markdown
