import MystNotebook.Document.Walk
import MystNotebook.Proofs.DirectiveParts
import MystNotebook.Proofs.LaidOutWords
import MystNotebook.Proofs.ShownLeaves

/-! Texts and images that reach the Markdown of a document: a leaf that no parent above it leaves
out stands in the result, whatever it is set into. -/
namespace MystNotebook.Markdown
open Text Draft

/-- What is written for a list of nodes in any of its roles has the word of a leaf that is shown in
the nodes that count in the role. -/
structure ListCarries (l : Leaf) (ns : List Node) : Prop where
  blocks : ∀ skip started, Carries (word l) (ShownIn (fun n => standsAlone n && !skip n) l ns)
    (writeBlocks skip started ns)
  inlines : Carries (word l) (ShownIn standsAlone l ns) (writeInlines ns)
  unwrapped : Carries (word l) (ShownIn standsAlone l ns) (writeUnwrapped ns)
  title : ∀ kind d p cs, ns.find? (ofKind kind) = some (.parent p cs) → ShownIn standsAlone l cs →
    ∃ t ∈ (writeTitle kind ns d).1, word l <:+: t.toList
  parts : ∀ kind, Carries (word l) (ShownIn (fun n => standsAlone n && ofKind kind n) l ns)
    (writeParts kind ns)
  itemBody : ∀ spread started, Carries (word l) (ShownIn standsAlone l ns)
    (writeItemBody spread started ns)
  items : ∀ ordered spread number, Carries (word l) (ShownIn isListItem l ns)
    (writeItems ordered spread number ns)
  rows : ∀ columns align first, Carries (word l) (ShownIn isTableRow l ns)
    (writeRows columns align first ns)
  cells : Carries (word l) (ShownIn isTableCell l ns) (writeCells ns)
  definitions : ∀ started, Carries (word l) (ShownIn isDefinitionPart l ns)
    (writeDefinitions started ns)

variable {l : Leaf} {p : Parent} {n : Node} {cs ns : List Node}

/-! Leaves. -/

theorem has_leaf {w : List Char} {d : Draft} (h : d.Has w) (l : Leaf) : (d.leaf l).Has w := by
  cases l with
  | thematicBreak | code | math | comment => exact h.block _
  | text | image | inlineMath | html => exact h.inline _
  | inlineCode value => exact h.inlineCode _
  | lineBreak => exact h.push _
  | target label => exact h.target _

theorem carries_leaf (hw : IsWord (word l)) (l' : Leaf) :
    Carries (word l) (Shown l (.leaf l')) (writeNode (.leaf l')) := by
  intro d hd
  rw [writeNode]
  rcases hd with hd | hshown
  · exact has_leaf hd l'
  · obtain rfl := shown_leaf.mp hshown
    cases l' with
    | text value => exact has_inline (.inr (List.infix_refl _))
    | image i => exact has_inline (.inr (infix_imageText hw))
    | _ => exact List.nil_infix

/-- A node in block position. -/
theorem carries_asBlock {P : Prop} (hn : Carries (word l) P (writeNode n)) (hP : P → Shown l n) :
    Carries (word l) P (·.asBlock n (writeNode n)) := by
  intro d hd
  unfold asBlock
  split
  next i =>
    split
    next =>
      refine has_block (hd.imp_right fun h => ?_)
      obtain rfl := shown_leaf.mp (hP h)
      have hstart : word (.image i) <:+:
          directiveStart (colonFence 0) "image" (some i.url) (imageOptions i) :=
        infix_directiveStart (List.infix_refl _) _ _ _
      rw [imageDirectiveText, List.append_assoc]
      exact hstart.trans (List.prefix_append _ _).isInfix
    next => exact hn.inLine d hd
  next =>
    split
    · exact hn.inLine d hd
    · exact hn d hd

/-! Parents. -/

theorem ListCarries.plainBlocks (hcs : ListCarries l cs) (started : Bool) :
    Carries (word l) (ShownIn standsAlone l cs) (writeBlocks nowhere started cs) :=
  (hcs.blocks nowhere started).mono fun h => h.mono fun n hn => by simp [hn, nowhere]

theorem carries_crossReference (hcs : ListCarries l cs) (kind : Option String) (t : Target) :
    Carries (word l) (ShownIn standsAlone l cs)
      (writeNode (.parent (.crossReference kind t) cs)) := by
  intro d hd
  simp only [writeNode]
  split
  next => exact hcs.inlines _ hd
  next destination _ =>
    have hinside : Carries (word l) (ShownIn standsAlone l cs)
        (if cs.isEmpty then (·.inline (t.label.getD destination).toList) else writeInlines cs) := by
      split
      next hempty =>
        intro d hd
        rw [List.isEmpty_iff.mp hempty] at hd
        exact (hd.resolve_right not_shownIn_nil).inline _
      next => exact hcs.inlines
    exact hinside.wrapped ['['] _ d hd

theorem carries_other (hcs : ListCarries l cs) (name : String) (fields : Json.Fields) :
    Carries (word l) (ShownIn standsAlone l cs) (writeNode (.parent (.other name fields) cs)) := by
  intro d hd
  simp only [writeNode]
  split
  next hempty =>
    rw [List.isEmpty_iff.mp hempty] at hd
    have hreported (message : String) : (d.report name message).Has (word l) :=
      hd.resolve_right not_shownIn_nil
    split
    · exact (hreported _).inline _
    · exact hreported _
  next => exact hcs.inlines.flow (hcs.plainBlocks false) _ _ hd

theorem exists_title (hcs : ListCarries l cs) {kind : Parent → Bool}
    (hkind : kind ∈ [isTitle, isCaption, isCardTitle, isSummary]) {c : Node}
    (hc : cs.find? (ofKind kind) = some c) (hshown : Shown l c) (d : Draft) :
    ∃ t ∈ (writeTitle kind cs d).1, word l <:+: t.toList := by
  cases c with
  | leaf l' => exact absurd (List.find?_some hc) Bool.false_ne_true
  | parent p ds =>
    have hp : ofKind kind (.parent p ds) = true := List.find?_some hc
    obtain ⟨hleads, hfollows⟩ := leads_title hkind hp
    exact hcs.title kind d p ds hc (shownIn_standsAlone hleads hfollows hshown)

/-- A container that is neither a figure nor a table; one of code shows its caption alone. -/
theorem carries_container (hcs : ListCarries l cs) {kind : Option String} (t : Target)
    (enumerator cssClass : Option String)
    (hdirective : writesDirective (.parent (.container kind t enumerator cssClass) cs) = false) :
    Carries (word l) (Shown l (.parent (.container kind t enumerator cssClass) cs))
      (writeNode (.parent (.container kind t enumerator cssClass) cs)) := by
  intro d hd
  simp only [writeNode]
  split
  next => cases hdirective
  next => cases hdirective
  next =>
    have htitle : d.Has (word l) → (writeTitle isCaption cs d).2.Has (word l) :=
      fun h => h.of_page (page_writeTitle isCaption cs d)
    refine has_block (hd.imp htitle fun hshown => ?_)
    rcases shown_parent.mp hshown with ⟨c, hc, hc'⟩ | ⟨c, -, hc, -⟩
    · obtain ⟨caption, hcaption, hinfix⟩ := exists_title hcs (by simp) hc hc' d
      have hmem : ("caption", caption) ∈ some? "label" t.label ++ some? "class" cssClass ++
          some? "caption" (writeTitle isCaption cs d).1 := by
        rw [Option.mem_def.mp hcaption]
        simp [some?]
      exact infix_fencedText (infix_optionLines hmem hinfix) _ _
    · exact absurd hc Bool.false_ne_true
  next hfigure htable hcode =>
    have hleads := leads_container hfigure htable hcode t enumerator cssClass
    refine hcs.plainBlocks false d (hd.imp_right fun hshown => ?_)
    refine ((shown_parent_of_leads hleads).mp hshown).mono fun n hn => ?_
    change (kind != some "code" && standsAlone n && _) = true at hn
    simp only [Bool.and_eq_true] at hn
    exact hn.1.2

theorem carries_role (hcs : ListCarries l cs) (name : String) (value : Option String) :
    Carries (word l) (Shown l (.parent (.role name value) cs))
      (writeNode (.parent (.role name value) cs)) := by
  intro d hd
  simp only [writeNode]
  split
  next value =>
    refine ((hd.resolve_right fun hshown => ?_).inline _).inlineCode _
    obtain ⟨c, -, hc, -⟩ := (shown_parent_of_leads rfl).mp hshown
    exact Bool.false_ne_true hc
  next =>
    refine hcs.inlines d (hd.imp_right fun hshown => ?_)
    exact ((shown_parent_of_leads rfl).mp hshown).mono fun n hn => hn

theorem carries_plainParent (hw : IsWord (word l)) (hcs : ListCarries l cs)
    (hdirective : writesDirective (.parent p cs) = false) :
    Carries (word l) (standsAlone (.parent p cs) = true ∧ Shown l (.parent p cs))
      (writeNode (.parent p cs)) := by
  intro d hd
  have hshown : d.Has (word l) ∨ Shown l (.parent p cs) := hd.imp_right And.right
  cases p with
  | tableRow | tableCell | definitionTerm | definitionDescription =>
    simp only [writeNode]
    exact hd.resolve_right fun h => Bool.false_ne_true h.1
  | list ordered start spread =>
    have hitems := hshown.imp_right (shown_parent_of_leads rfl).mp
    simp only [writeNode]
    exact hcs.items ordered spread _ _ (hitems.imp_left Has.newline)
  | table align =>
    have hrows := hshown.imp_right (shown_parent_of_leads rfl).mp
    simp only [writeNode]
    split
    next => exact hcs.rows _ align true _ (hrows.imp_left Has.newline)
    next hno =>
      refine (hrows.resolve_right ?_).newline
      rintro ⟨n, hn, hrow, -⟩
      exact hno (List.any_eq_true.mpr ⟨n, hn, hrow⟩)
  | definitionList =>
    have hparts := hshown.imp_right (shown_parent_of_leads rfl).mp
    simp only [writeNode]
    exact hcs.definitions false _ (hparts.imp_left Has.newline)
  | container kind t enumerator cssClass =>
    exact carries_container hcs t enumerator cssClass hdirective d hshown
  | role name value => exact carries_role hcs name value d hshown
  | crossReference kind t =>
    exact carries_crossReference hcs kind t d (hshown.imp_right (shownIn_standsAlone rfl rfl))
  | other name fields =>
    exact carries_other hcs name fields d (hshown.imp_right (shownIn_standsAlone rfl rfl))
  | block kind data t =>
    have hall := hshown.imp_right (shownIn_standsAlone rfl rfl)
    simp only [writeNode]
    exact hcs.plainBlocks false _ (hall.imp_left fun h => h.target _)
  | heading level t =>
    have hall := hshown.imp_right (shownIn_standsAlone rfl rfl)
    simp only [writeNode]
    exact (hcs.inlines _ (hall.imp_left fun h => (h.target _).newline.push _)).push ['\n']
  | paragraph =>
    have hall := hshown.imp_right (shownIn_standsAlone rfl rfl)
    simp only [writeNode]
    exact (hcs.inlines _ (hall.imp_left Has.newline)).push ['\n']
  | blockquote =>
    have hall := hshown.imp_right (shownIn_standsAlone rfl rfl)
    simp only [writeNode]
    refine has_push (hall.imp Has.newline fun h => ?_)
    exact infix_quoteText hw ((hcs.plainBlocks false).capture h d.newline)
  | listItem | inclusion =>
    have hall := hshown.imp_right (shownIn_standsAlone rfl rfl)
    simp only [writeNode]
    exact hcs.plainBlocks false d hall
  | emphasis | strong | link =>
    have hall := hshown.imp_right (shownIn_standsAlone rfl rfl)
    simp only [writeNode]
    exact hcs.inlines.wrapped _ _ d hall
  | admonitionTitle | caption | legend | cardTitle | header | footer | summary =>
    have hall := hshown.imp_right (shownIn_standsAlone rfl rfl)
    simp only [writeNode]
    exact hcs.inlines.flow (hcs.plainBlocks false) _ d hall
  | admonition | exercise | solution | proof | tabSet | tabItem | card | grid | details | aside
  | directive => cases hdirective

/-! Directives. -/

/-- The child that leads makes up the argument. -/
theorem exists_argument (hcs : ListCarries l cs) (hp : writesDirective (.parent p cs) = true)
    {c : Node} (hc : cs.find? (leads p) = some c) (hshown : Shown l c) (d : Draft) :
    ∃ a ∈ directiveArgument (.parent p cs) d, word l <:+: a.toList := by
  cases p with
  | admonition | exercise | solution | proof | aside | card | details =>
    exact exists_title hcs (by simp) hc hshown d
  | container kind t enumerator cssClass =>
    simp only [writesDirective, Bool.or_eq_true, beq_iff_eq] at hp
    rcases hp with rfl | rfl
    · obtain ⟨i, rfl, hi⟩ := firstImage_of_find? hc
      obtain rfl := shown_leaf.mp hshown
      exact ⟨i.url, by simp [directiveArgument, hi], List.infix_refl _⟩
    · exact exists_title hcs (by simp) hc hshown d
  | tabSet | tabItem | grid | directive =>
    have hnone : cs.find? nowhere = some c := hc
    rw [find?_nowhere] at hnone
    cases hnone
  | _ => cases hp

theorem carries_cardBody (hcs : ListCarries l cs) (url : Option String) :
    Carries (word l) (ShownIn (follows (.card url)) l cs) (cardBody cs) := by
  intro d hd
  have hplace : ShownIn (follows (.card url)) l cs →
      (ShownIn (fun n => standsAlone n && ofKind isHeader n) l cs ∨
        ShownIn (fun n => standsAlone n && !isCardPart n) l cs) ∨
      ShownIn (fun n => standsAlone n && ofKind isFooter n) l cs := by
    rintro ⟨n, hn, hfollows, hshown⟩
    change (standsAlone n && !ofKind isCardTitle n) = true at hfollows
    simp only [Bool.and_eq_true, Bool.not_eq_true'] at hfollows
    cases hheader : ofKind isHeader n with
    | true => exact .inl (.inl ⟨n, hn, by simp [hfollows, hheader], hshown⟩)
    | false =>
      cases hfooter : ofKind isFooter n with
      | true => exact .inr ⟨n, hn, by simp [hfollows, hfooter], hshown⟩
      | false =>
        exact .inl (.inr ⟨n, hn, by simp [hfollows, isCardPart, hheader, hfooter], hshown⟩)
  have hd := hd.imp_right hplace
  have hfront (h : d.Has (word l) ∨ ShownIn (fun n => standsAlone n && ofKind isHeader n) l cs) :
      Has (word l) (if cs.any (ofKind isHeader) then (writeParts isHeader cs d).newline.add "^^^\n"
        else writeParts isHeader cs d) := by
    have hheader := hcs.parts isHeader d h
    split
    · exact hheader.newline.push _
    · exact hheader
  have hmiddle (h : d.Has (word l) ∨ ShownIn (fun n => standsAlone n && ofKind isHeader n) l cs ∨
        ShownIn (fun n => standsAlone n && !isCardPart n) l cs) :=
    hcs.blocks isCardPart false _ ((or_assoc.mpr h).imp_left hfront)
  simp only [cardBody]
  split
  next =>
    refine hcs.parts isFooter _ ((or_assoc.mpr hd).imp_left fun h => ?_)
    exact (hmiddle h).newline.push _
  next hno =>
    refine hmiddle (hd.imp_right fun h => h.resolve_right ?_)
    rintro ⟨n, hn, hfooter, -⟩
    exact hno (List.any_eq_true.mpr ⟨n, hn, ((Bool.and_eq_true _ _).mp hfooter).2⟩)

theorem carries_directiveBody (hcs : ListCarries l cs)
    (hp : writesDirective (.parent p cs) = true) :
    Carries (word l) (ShownIn (follows p) l cs) (directiveBody (.parent p cs)) := by
  cases p with
  | card url => exact carries_cardBody hcs url
  | directive name args options value =>
    intro d hd
    simp only [directiveBody, rawDirectiveBody]
    split
    next hempty =>
      rw [List.isEmpty_iff.mp hempty] at hd
      exact (hd.resolve_right not_shownIn_nil).newline.push _
    next => exact hcs.blocks nowhere false d hd
  | container kind t enumerator cssClass =>
    simp only [writesDirective, Bool.or_eq_true, beq_iff_eq] at hp
    rcases hp with rfl | rfl
    · exact hcs.blocks isImage false
    · exact hcs.blocks (ofKind isCaption) false
  | admonition | exercise | solution | proof | aside | details | tabSet | tabItem | grid =>
    exact hcs.blocks _ false
  | _ => cases hp

theorem carries_directive (hcs : ListCarries l cs) (hp : writesDirective (.parent p cs) = true) :
    Carries (word l) (Shown l (.parent p cs)) (writeNode (.parent p cs)) := by
  intro d hd
  obtain ⟨d', hpage, hwritten⟩ := writeNode_directive hp d
  rw [hwritten]
  refine (carries_directiveBody hcs hp).directive _ _ _ ?_
  refine hd.imp (fun h => h.of_page hpage) fun hshown => ?_
  refine (shown_parent.mp hshown).imp_left ?_
  rintro ⟨c, hc, hshown⟩
  exact exists_argument hcs hp hc hshown d

/-- One node, from what its children are written as. -/
theorem carries_node (hw : IsWord (word l)) (n : Node) (hcs : ListCarries l n.children) :
    Carries (word l) (standsAlone n = true ∧ Shown l n) (writeNode n) := by
  cases n with
  | leaf l' => exact (carries_leaf hw l').mono And.right
  | parent p cs =>
    by_cases hdirective : writesDirective (.parent p cs) = true
    · exact (carries_directive hcs hdirective).mono And.right
    · exact carries_plainParent hw hcs (Bool.not_eq_true _ ▸ hdirective)

/-! Lists of nodes. -/

theorem listCarries_nil (l : Leaf) : ListCarries l [] := by
  constructor
  case blocks =>
    intro skip started d hd
    rw [writeBlocks]
    exact hd.resolve_right not_shownIn_nil
  case inlines =>
    intro d hd
    rw [writeInlines]
    exact hd.resolve_right not_shownIn_nil
  case unwrapped =>
    intro d hd
    rw [writeUnwrapped]
    exact hd.resolve_right not_shownIn_nil
  case title =>
    intro kind d p cs hfind
    cases hfind
  case parts =>
    intro kind d hd
    rw [writeParts]
    exact hd.resolve_right not_shownIn_nil
  case itemBody =>
    intro spread started d hd
    rw [writeItemBody]
    exact hd.resolve_right not_shownIn_nil
  case items =>
    intro ordered spread number d hd
    rw [writeItems]
    exact hd.resolve_right not_shownIn_nil
  case rows =>
    intro columns align first d hd
    rw [writeRows]
    exact hd.resolve_right not_shownIn_nil
  case cells =>
    intro d hd
    rw [writeCells]
    exact hd.resolve_right not_shownIn_nil
  case definitions =>
    intro started d hd
    rw [writeDefinitions]
    exact hd.resolve_right not_shownIn_nil

/-- What is written first carries its word over the rest. -/
theorem carries_cons {select : Node → Bool} {first rest : Draft → Draft}
    (hfirst : Carries (word l) (select n = true ∧ Shown l n) first)
    (hrest : Carries (word l) (ShownIn select l ns) rest) :
    Carries (word l) (ShownIn select l (n :: ns)) fun d => rest (first d) :=
  (hfirst.comp hrest).mono shownIn_cons.mp

theorem carries_item (hw : IsWord (word l)) (hcs : ListCarries l cs) (hns : ListCarries l ns)
    (ordered spread itemSpread : Bool) (number : UInt32) :
    Carries (word l) (ShownIn isListItem l (.parent (.listItem itemSpread) cs :: ns))
      (writeItems ordered spread number (.parent (.listItem itemSpread) cs :: ns)) := by
  intro d hd
  rw [shownIn_cons, ← or_assoc] at hd
  simp only [writeItems]
  refine hns.items ordered spread (number + 1) _ (hd.imp_left fun h => ?_)
  have hitem : ((d.capture (writeItemBody (spread || itemSpread) false cs)).2.push
      (itemText (marker ordered number)
        (d.capture (writeItemBody (spread || itemSpread) false cs)).1)).Has (word l) := by
    refine has_push (h.imp_right fun h => ?_)
    have hshown := shownIn_standsAlone rfl rfl h.2
    exact infix_itemText hw ((hcs.itemBody _ false).capture hshown d) _
  split
  · exact hitem.push ['\n']
  · exact hitem

theorem carries_row (hcs : ListCarries l cs) (hns : ListCarries l ns) (columns : Nat)
    (align : List (Option Align)) (first : Bool) :
    Carries (word l) (ShownIn isTableRow l (.parent .tableRow cs :: ns))
      (writeRows columns align first (.parent .tableRow cs :: ns)) := by
  intro d hd
  rw [shownIn_cons, ← or_assoc] at hd
  simp only [writeRows]
  refine hns.rows columns align false _ (hd.imp_left fun h => ?_)
  have hcells := hcs.cells (d.push ['|']) (h.imp (fun h => h.push _) fun h =>
    (shown_parent_of_leads (p := .tableRow) rfl).mp h.2)
  split
  · exact (hcells.push _).push _
  · exact hcells.push _

theorem carries_cell (hw : IsWord (word l)) (hcs : ListCarries l cs) (hns : ListCarries l ns)
    (header : Option Bool) :
    Carries (word l) (ShownIn isTableCell l (.parent (.tableCell header) cs :: ns))
      (writeCells (.parent (.tableCell header) cs :: ns)) := by
  intro d hd
  rw [shownIn_cons, ← or_assoc] at hd
  simp only [writeCells]
  refine hns.cells _ (hd.imp_left fun h => has_push (h.imp (fun h => h.push [' ']) fun h => ?_))
  have hshown := shownIn_standsAlone rfl rfl h.2
  exact (infix_cellText hw (hcs.unwrapped.capture hshown _)).trans (List.prefix_append _ _).isInfix

theorem carries_term (hw : IsWord (word l)) (hcs : ListCarries l cs) (hns : ListCarries l ns)
    (started : Bool) :
    Carries (word l) (ShownIn isDefinitionPart l (.parent .definitionTerm cs :: ns))
      (writeDefinitions started (.parent .definitionTerm cs :: ns)) := by
  intro d hd
  rw [shownIn_cons, ← or_assoc] at hd
  simp only [writeDefinitions]
  refine hns.definitions true _ (hd.imp_left fun h => has_push ?_)
  refine h.imp (fun h => h.separated started) fun h => ?_
  have hshown := shownIn_standsAlone rfl rfl h.2
  exact (hcs.unwrapped.captureLine hw hshown _).trans (List.prefix_append _ _).isInfix

theorem carries_description (hw : IsWord (word l)) (hcs : ListCarries l cs)
    (hns : ListCarries l ns) (started : Bool) :
    Carries (word l) (ShownIn isDefinitionPart l (.parent .definitionDescription cs :: ns))
      (writeDefinitions started (.parent .definitionDescription cs :: ns)) := by
  intro d hd
  rw [shownIn_cons, ← or_assoc] at hd
  simp only [writeDefinitions]
  refine hns.definitions true _ (hd.imp_left fun h => has_push (h.imp_right fun h => ?_))
  have hshown := shownIn_standsAlone rfl rfl h.2
  exact infix_descriptionText hw ((hcs.plainBlocks false).capture hshown d)

theorem listCarries_cons (hw : IsWord (word l))
    (hn : Carries (word l) (standsAlone n = true ∧ Shown l n) (writeNode n))
    (hcs : ListCarries l n.children) (hns : ListCarries l ns) : ListCarries l (n :: ns) := by
  have hblock : Carries (word l) (standsAlone n = true ∧ Shown l n) (·.asBlock n (writeNode n)) :=
    carries_asBlock hn And.right
  constructor
  case blocks =>
    intro skip started d hd
    rw [writeBlocks]
    split
    next hskip =>
      rw [shownIn_cons_of_not (by simp [hskip])] at hd
      exact hns.blocks skip started d hd
    next hskip =>
      rw [shownIn_cons, ← or_assoc] at hd
      refine hns.blocks skip true _ (hd.imp_left fun h => hblock _ ?_)
      refine h.imp (fun h => h.separated started) fun h => ?_
      exact ⟨((Bool.and_eq_true _ _).mp h.1).1, h.2⟩
  case inlines =>
    intro d hd
    rw [writeInlines]
    exact carries_cons hn hns.inlines d hd
  case unwrapped =>
    intro d hd
    rw [writeUnwrapped.eq_def]
    rw [shownIn_cons, ← or_assoc] at hd
    split
    next heq => cases heq
    next heq =>
      cases heq
      refine hns.unwrapped _ (hd.imp_left fun h => hcs.inlines _ (h.imp_right fun h => ?_))
      exact shownIn_standsAlone rfl rfl h.2
    next heq =>
      cases heq
      exact hns.unwrapped _ (hd.imp_left (hn _))
  case title =>
    intro kind d p ds hfind hshown
    cases n with
    | leaf l' => exact hns.title kind d p ds hfind hshown
    | parent q cs =>
      rw [writeTitle]
      split
      next hq =>
        have hfirst : ofKind kind (.parent q cs) = true := hq
        rw [List.find?_cons_of_pos hfirst, Option.some.injEq, Node.parent.injEq] at hfind
        obtain ⟨rfl, rfl⟩ := hfind
        refine ⟨_, rfl, ?_⟩
        rw [String.toList_ofList]
        exact hcs.unwrapped.captureLine hw hshown d
      next hq =>
        have hfirst : ¬ ofKind kind (.parent q cs) = true := hq
        rw [List.find?_cons_of_neg hfirst] at hfind
        exact hns.title kind d p ds hfind hshown
  case parts =>
    intro kind d hd
    rw [writeParts]
    split
    next hkind =>
      rw [shownIn_cons, ← or_assoc] at hd
      refine hns.parts kind _ (hd.imp_left fun h => hn d (h.imp_right fun h => ?_))
      exact ⟨((Bool.and_eq_true _ _).mp h.1).1, h.2⟩
    next hkind =>
      rw [shownIn_cons_of_not (by simp [hkind])] at hd
      exact hns.parts kind d hd
  case itemBody =>
    intro spread started d hd
    rw [shownIn_cons, ← or_assoc] at hd
    rw [writeItemBody]
    refine hns.itemBody spread true _ (hd.imp_left fun h => hblock _ (h.imp_left fun h => ?_))
    split
    · split
      · exact h.blankLine
      · exact h.newline
    · exact h
  case items =>
    intro ordered spread number d hd
    cases n with
    | leaf l' => exact hns.items ordered spread number d (hd.imp_right (shownIn_cons_of_not rfl).mp)
    | parent p cs =>
      cases p with
      | listItem itemSpread =>
        exact carries_item hw hcs hns ordered spread itemSpread number d hd
      | _ => exact hns.items ordered spread number d (hd.imp_right (shownIn_cons_of_not rfl).mp)
  case rows =>
    intro columns align first d hd
    cases n with
    | leaf l' => exact hns.rows columns align first d (hd.imp_right (shownIn_cons_of_not rfl).mp)
    | parent p cs =>
      cases p with
      | tableRow => exact carries_row hcs hns columns align first d hd
      | _ => exact hns.rows columns align first d (hd.imp_right (shownIn_cons_of_not rfl).mp)
  case cells =>
    intro d hd
    cases n with
    | leaf l' => exact hns.cells d (hd.imp_right (shownIn_cons_of_not rfl).mp)
    | parent p cs =>
      cases p with
      | tableCell header => exact carries_cell hw hcs hns header d hd
      | _ => exact hns.cells d (hd.imp_right (shownIn_cons_of_not rfl).mp)
  case definitions =>
    intro started d hd
    cases n with
    | leaf l' => exact hns.definitions true d (hd.imp_right (shownIn_cons_of_not rfl).mp)
    | parent p cs =>
      cases p with
      | definitionTerm => exact carries_term hw hcs hns started d hd
      | definitionDescription => exact carries_description hw hcs hns started d hd
      | _ => exact hns.definitions true d (hd.imp_right (shownIn_cons_of_not rfl).mp)

/-! Documents. -/

mutual

theorem carries_writeNode (hw : IsWord (word l)) : (n : Node) →
    Carries (word l) (standsAlone n = true ∧ Shown l n) (writeNode n) ∧ ListCarries l n.children
  | .leaf l' => ⟨carries_node hw (.leaf l') (listCarries_nil l), listCarries_nil l⟩
  | .parent p cs => by
    have hcs := listCarries hw cs
    exact ⟨carries_node hw (.parent p cs) hcs, hcs⟩

theorem listCarries (hw : IsWord (word l)) : (ns : List Node) → ListCarries l ns
  | [] => listCarries_nil l
  | n :: ns => by
    have hn := carries_writeNode hw n
    exact listCarries_cons hw hn.1 hn.2 (listCarries hw ns)

end

theorem carries_writeTop (hw : IsWord (word l)) (separators started : Bool) (ns : List Node) :
    Carries (word l) (ShownIn standsAlone l ns) (writeTop separators started ns) := by
  induction ns generalizing started with
  | nil =>
    intro d hd
    exact hd.resolve_right not_shownIn_nil
  | cons n ns ih =>
    intro d hd
    have hblock := carries_asBlock (carries_writeNode hw n).1 And.right
    rw [shownIn_cons, ← or_assoc] at hd
    rw [writeTop]
    refine ih true _ (hd.imp_left fun h => hblock _ (h.imp_left fun h => ?_))
    exact (h.separated started).push _

/-- A text or an image that no parent above it leaves out stands in what is written, if its value or
its url is a word. -/
theorem infix_write_of_shown {ns : List Node} {l : Leaf} (hw : IsWord (word l))
    (h : ShownIn standsAlone l ns) (separators : Bool) :
    word l <:+: (write separators ns).toList := by
  have htop : (writeTop separators false ns {}).Has (word l) :=
    carries_writeTop hw separators false ns {} (.inr h)
  rw [write, String.toList_ofList]
  exact htop.newline

/-- The title of a note, an item in its body and an image in a table are all there. -/
theorem infix_write_noteWithTable :
    let cell : Node := .parent (.tableCell none) [.leaf (.image { url := "a/b.png" })]
    let note : Node := .parent (.admonition (some "note") none)
      [.parent .admonitionTitle [.paragraph [.text "Heading"]],
        .parent (.list false none false) [.parent (.listItem false) [.text "first"]],
        .parent (.table []) [.parent .tableRow [cell]]]
    ∀ l ∈ [Leaf.text "Heading", .text "first", .image { url := "a/b.png" }],
      IsWord (word l) ∧ ShownIn standsAlone l [note] ∧
        word l <:+: (write true [note]).toList := by
  intro cell note
  have hshown : ∀ l ∈ [Leaf.text "Heading", .text "first", .image { url := "a/b.png" }],
      IsWord (word l) ∧ Shown l note := by
    simp only [List.forall_mem_cons, List.not_mem_nil, false_implies, implies_true, and_true]
    refine ⟨⟨by simp [IsWord, word, isBlank], ?_⟩, ⟨by simp [IsWord, word, isBlank], ?_⟩,
      ⟨by simp [IsWord, word, isBlank], ?_⟩⟩
    · exact .inside (.head _) (.inside (.head _) (.inside (.head _) .here))
    · exact .inside (.tail _ (.head _)) (.inside (.head _) (.inside (.head _) .here))
    · exact .inside (.tail _ (.tail _ (.head _)))
        (.inside (.head _) (.inside (.head _) (.inside (.head _) .here)))
  intro l hl
  obtain ⟨hword, hnote⟩ := hshown l hl
  have hin : ShownIn standsAlone l [note] := ⟨note, List.mem_singleton_self note, rfl, hnote⟩
  exact ⟨hword, hin, infix_write_of_shown hword hin true⟩

/-- An item that is malformed, and so of an unknown kind, is neither written nor reported. -/
theorem write_malformedItem :
    let item : Node := .parent (.other "listItem" (.ofList [("spread", .string "no")]))
      [.paragraph [.text "lost"]]
    let document : List Node := [.parent (.list false none false) [item]]
    Node.text "lost" ∈ Node.preorderAll document ∧ write true document = "" ∧
      ¬ "lost".toList <:+: (write true document).toList ∧ diagnose true document = [] := by
  decide

end MystNotebook.Markdown
