import Mathlib.Data.Option.Basic
import MystNotebook.Proofs.DirectiveParts
import MystNotebook.Proofs.GrowingDrafts

/-! Runs of a character in written documents. If the texts of all nodes have only short runs, and no
fence is long, then what is written has only short runs: each kind of node is a step, and a document
follows by induction on its tree. -/
namespace MystNotebook
open Text

variable {c : Char} {k : Nat}

/-- The node itself adds no long run. Its texts have none, and it is plain, or else colons are what
is counted, and the fences in it are short and its texts have no colon at all. -/
structure Node.Quiet (c : Char) (k : Nat) (n : Node) : Prop where
  texts : ∀ s ∈ n.texts, Sealed c k s.toList
  plain : n.isPlain = true ∨
    c = ':' ∧ 3 + Markdown.directiveDepth n ≤ k ∧ ∀ s ∈ n.texts, ':' ∉ s.toList

namespace Markdown
open Draft

/-- What is written for a list of nodes in any of its roles grows by short runs only. -/
structure ListWrites (c : Char) (k : Nat) (ns : List Node) : Prop where
  blocks : ∀ skip started, Writes c k (writeBlocks skip started ns)
  inlines : Writes c k (writeInlines ns)
  unwrapped : Writes c k (writeUnwrapped ns)
  title : ∀ kind d, ∀ t ∈ (writeTitle kind ns d).1, RunsBelow c k t.toList
  parts : ∀ kind, Writes c k (writeParts kind ns)
  itemBody : ∀ spread started, Writes c k (writeItemBody spread started ns)
  items : ∀ ordered spread number, Writes c k (writeItems ordered spread number ns)
  rows : ∀ columns align first, Writes c k (writeRows columns align first ns)
  cells : Writes c k (writeCells ns)
  definitions : ∀ started, Writes c k (writeDefinitions started ns)

/-! Leaves. -/

theorem sealed_imageDirective (hm : IsMark c k) {i : Image} (h : (Node.leaf (.image i)).Quiet c k)
    (hi : i.hasDirectiveAttributes = true) : Sealed c k (imageDirectiveText i) := by
  rcases h.plain with hplain | ⟨rfl, hdepth, -⟩
  · simp only [Node.isPlain, Leaf.isPlain, Image.isPlain, Bool.and_eq_true,
      Option.isNone_iff_eq_none] at hplain
    obtain ⟨⟨⟨hclass, hwidth⟩, hheight⟩, halign⟩ := hplain
    simp [Image.hasDirectiveAttributes, hclass, hwidth, hheight, halign] at hi
  · have hk : 3 < k := by
      simp only [directiveDepth, writesDirective, hi, if_true] at hdepth
      omega
    exact sealed_imageDirectiveText hm hk fun s hs => (h.texts s hs).runs

theorem writes_leaf (hm : IsMark c k) {l : Leaf} (h : (Node.leaf l).Quiet c k) :
    Writes c k (writeNode (.leaf l)) := by
  intro d
  have hd := Grows.refl hm d
  have htexts : ∀ s ∈ l.texts, Sealed c k s.toList := h.texts
  rw [writeNode]
  cases l with
  | thematicBreak => exact hd.block hm (hm.fixed _ (by decide))
  | code code =>
    refine hd.block hm (sealed_codeText hm htexts (h.plain.imp_right ?_))
    rintro ⟨rfl, hk, -⟩
    exact ⟨rfl, by omega⟩
  | text value => exact hd.inline (htexts value (List.mem_singleton_self value))
  | inlineCode value => exact hd.inlineCode hm (htexts value (List.mem_singleton_self value))
  | lineBreak => exact (hd.push (hm.fixed _ (by decide))).atLineStart
  | image i =>
    simp only [Leaf.texts, List.forall_mem_append, List.forall_mem_singleton,
      Option.mem_toList] at htexts
    obtain ⟨⟨⟨⟨⟨⟨hurl, htitle⟩, halt⟩, -⟩, -⟩, -⟩, -⟩ := htexts
    exact hd.inline (sealed_imageText hm hurl halt htitle)
  | math m =>
    obtain ⟨rfl, hk, -⟩ := h.plain.resolve_left (by simp [Node.isPlain, Leaf.isPlain])
    exact hd.block hm (sealed_mathText hm (by omega) htexts)
  | inlineMath value =>
    have hvalue := htexts value (List.mem_singleton_self value)
    exact hd.inline
      (((hm.fixed ['$'] (by decide)).append hvalue).append (hm.fixed ['$'] (by decide)))
  | html value => exact hd.inline (htexts value (List.mem_singleton_self value))
  | target label =>
    have hlabel := htexts label (List.mem_singleton_self label)
    exact hd.target hm (by simpa using hlabel)
  | comment value =>
    have hvalue := htexts value (List.mem_singleton_self value)
    exact hd.block hm (sealed_commentText hm hvalue.runs)

/-! Parents that are not directives. -/

variable {p : Parent} {cs : List Node}

theorem sealed_marker (hm : IsMark c k) (ordered : Bool) (number : UInt32) :
    Sealed c k (marker ordered number) := by
  unfold marker
  split
  · exact (hm.digits number.toNat).append (hm.fixed ['.', ' '] (by decide))
  · exact hm.fixed ['-', ' '] (by decide)

theorem sealed_label {t : Target} (h : ∀ s ∈ t.texts, Sealed c k s.toList) :
    ∀ s ∈ t.label, Sealed c k s.toList := by
  intro s hs
  rw [Option.mem_def] at hs
  exact h s (by simp [Target.texts, hs])

theorem writes_crossReference (hm : IsMark c k) (hw : ListWrites c k cs) {kind : Option String}
    {t : Target} (h : ∀ s ∈ t.texts, Sealed c k s.toList) :
    Writes c k (writeNode (.parent (.crossReference kind t) cs)) := by
  intro d
  have hd := Grows.refl hm d
  simp only [writeNode]
  split
  next => exact hw.inlines.after (hd.report _ _)
  next destination hdestination =>
    have hurl : Sealed c k destination.toList := by
      refine h destination ?_
      rw [Option.orElse_eq_some] at hdestination
      rcases hdestination with hs | ⟨-, hs⟩ <;> simp [Target.texts, hs]
    have hshown : Sealed c k (t.label.getD destination).toList := by
      cases hlabel : t.label with
      | none => exact hurl
      | some label => exact sealed_label h label hlabel
    have hinside : Writes c k (if cs.isEmpty then (·.inline (t.label.getD destination).toList)
        else writeInlines cs) := by
      split
      · exact fun d => (Grows.refl hm d).inline hshown
      · exact hw.inlines
    exact hinside.link hm (hurl.cons (hm.ne (by decide))) (by simp) hd

theorem writes_other (hm : IsMark c k) (hw : ListWrites c k cs) {name : String}
    {fields : Json.Fields} (h : ∀ s ∈ fields.texts, Sealed c k s.toList) :
    Writes c k (writeNode (.parent (.other name fields) cs)) := by
  intro d
  have hd := Grows.refl hm d
  simp only [writeNode]
  split
  · split
    next value hvalue =>
      have hmem : value ∈ fields.texts :=
        Json.Fields.mem_texts_of_get? hvalue (by simp [Json.Value.texts])
      exact (hd.report _ _).inline (h value hmem)
    next => exact hd.report _ _
  · exact hw.inlines.flow hm (hw.blocks nowhere false) _ (hd.report _ _)

theorem writes_plainParent (hm : IsMark c k) (hp : p.isMystOnly = false)
    (h : ∀ s ∈ p.texts, Sealed c k s.toList) (hw : ListWrites c k cs) :
    Writes c k (writeNode (.parent p cs)) := by
  intro d
  have hd := Grows.refl hm d
  cases p with
  | block kind data t =>
    rw [Parent.texts, List.forall_mem_append] at h
    simp only [writeNode]
    exact (hw.blocks nowhere false).after (hd.target hm (sealed_label h.2))
  | heading level t =>
    have hmarks := (hm.replicate (max 1 (min level.toNat 6)) '#' (by decide)).append
      (hm.fixed [' '] (by decide))
    have hstart := ((hd.target hm (sealed_label h)).newline hm).push hmarks
    simp only [writeNode]
    exact ((hw.inlines.after hstart).push hm.newline).atLineStart
  | paragraph =>
    simp only [writeNode]
    exact ((hw.inlines.after (hd.newline hm)).push hm.newline).atLineStart
  | blockquote =>
    have hbody := (hw.blocks nowhere false).capture d.newline
    simp only [writeNode]
    exact (((hd.newline hm).of_captured _).push (sealed_quoteText hm hbody)).atLineStart
  | list ordered start spread =>
    simp only [writeNode]
    exact ((hw.items ordered spread _).after (hd.newline hm)).atLineStart
  | table align =>
    simp only [writeNode]
    split
    · exact ((hw.rows _ align true).after (hd.newline hm)).atLineStart
    · exact hd.newline hm
  | definitionList =>
    simp only [writeNode]
    exact ((hw.definitions false).after (hd.newline hm)).atLineStart
  | listItem =>
    simp only [writeNode]
    exact (hw.blocks nowhere false).after hd
  | tableRow | tableCell | definitionTerm | definitionDescription =>
    simp only [writeNode]
    exact hd
  | emphasis =>
    simp only [writeNode]
    exact hw.inlines.wrapped (hm.fixed ['*'] (by decide)) hd
  | strong =>
    simp only [writeNode]
    exact hw.inlines.wrapped (hm.fixed ['*', '*'] (by decide)) hd
  | link url title =>
    simp only [Parent.texts, List.forall_mem_append, List.forall_mem_singleton,
      Option.mem_toList] at h
    simp only [writeNode]
    exact hw.inlines.link hm h.1 h.2 hd
  | crossReference kind t =>
    rw [Parent.texts, List.forall_mem_append] at h
    exact writes_crossReference hm hw h.2 d
  | admonitionTitle | caption | legend | cardTitle | header | footer | summary =>
    simp only [writeNode]
    exact hw.inlines.flow hm (hw.blocks nowhere false) _ hd
  | other name fields =>
    rw [Parent.texts, List.forall_mem_cons] at h
    exact writes_other hm hw h.2 d
  | _ => cases hp

/-! Directives and the other parents that only MyST has. -/

theorem runsBelow_getD {o : Option String} (ho : ∀ s ∈ o, RunsBelow c k s.toList)
    {default : String} (hdefault : RunsBelow c k default.toList) :
    RunsBelow c k (o.getD default).toList := by
  cases o with
  | none => exact hdefault
  | some s => exact ho s rfl

theorem mem_of_firstImage {i : Image} (h : firstImage cs = some i) : .leaf (.image i) ∈ cs := by
  obtain ⟨n, hn, hni⟩ := List.exists_of_findSome?_eq_some h
  split at hni
  · rwa [← Option.some.inj hni]
  · cases hni

theorem mem_of_firstCode {code : Code} (h : firstCode cs = some code) :
    .leaf (.code code) ∈ cs := by
  obtain ⟨n, hn, hni⟩ := List.exists_of_findSome?_eq_some h
  split at hni
  · rwa [← Option.some.inj hni]
  · cases hni

/-- The first image is a child, whose texts have short runs. -/
theorem runsBelow_firstImage (hchildren : ∀ n ∈ cs, ∀ s ∈ n.texts, Sealed c k s.toList) {i : Image}
    (hi : firstImage cs = some i) : ∀ s ∈ (Leaf.image i).texts, RunsBelow c k s.toList :=
  fun s hs => (hchildren _ (mem_of_firstImage hi) s hs).runs

/-- The domain of a proof ends in a colon of its own. -/
theorem runsBelow_proofName (hm : IsMark ':' k) {kind : Option String}
    (h : ∀ s ∈ kind, ':' ∉ s.toList) :
    RunsBelow ':' k ("prf:" ++ kind.getD "proof").toList := by
  have hkind : ':' ∉ (kind.getD "proof").toList := by
    cases kind with
    | none => decide
    | some s => exact h s rfl
  have hname : ("prf:" ++ kind.getD "proof").toList =
      ['p', 'r', 'f'] ++ ':' :: (kind.getD "proof").toList := by
    rw [String.toList_append]
    rfl
  rw [RunsBelow, hname, longestRun_append_of_not_mem (by decide) (by decide),
    longestRun_cons_self, longestRun_of_not_mem hkind]
  exact hm.two_le

theorem runsBelow_directiveName (hm : IsMark ':' k) (h : ∀ s ∈ p.texts, ':' ∉ s.toList) :
    RunsBelow ':' k (directiveName (.parent p cs)).toList := by
  have hruns : ∀ s ∈ p.texts, RunsBelow ':' k s.toList :=
    fun s hs => runsBelow_of_not_mem hm.pos (h s hs)
  have hfixed : ∀ name ∈ ["exercise", "solution", "tab-set", "tab-item", "card", "grid",
      "dropdown", ""], ':' ∉ name.toList := by
    decide
  cases p with
  | admonition kind cssClass | aside kind cssClass =>
    simp only [Parent.texts, List.forall_mem_append, Option.mem_toList] at hruns
    exact runsBelow_getD hruns.1 (hm.fixed _ (by decide)).runs
  | container kind t enumerator cssClass =>
    simp only [Parent.texts, List.forall_mem_append, Option.mem_toList] at hruns
    exact runsBelow_getD hruns.1.1.1 (hm.fixed _ (by decide)).runs
  | proof kind t enumerator =>
    simp only [Parent.texts, List.forall_mem_append, Option.mem_toList] at h
    exact runsBelow_proofName hm h.1.1
  | directive name args options value => exact hruns name (by simp [Parent.texts])
  | _ => exact runsBelow_of_not_mem hm.pos (hfixed _ (by simp [directiveName]))

theorem runsBelow_directiveArgument (hm : IsMark ':' k)
    (h : ∀ s ∈ p.texts, Sealed ':' k s.toList)
    (hchildren : ∀ n ∈ cs, ∀ s ∈ n.texts, Sealed ':' k s.toList) (hw : ListWrites ':' k cs)
    (d : Draft) : ∀ a ∈ directiveArgument (.parent p cs) d, RunsBelow ':' k a.toList := by
  have hnone : ∀ a ∈ (none : Option String), RunsBelow ':' k a.toList := by simp
  cases p with
  | admonition | exercise | solution | proof | card | details | aside => exact hw.title _ d
  | container kind t enumerator cssClass =>
    simp only [directiveArgument]
    split
    · intro s hs
      obtain ⟨i, hi, rfl⟩ := Option.map_eq_some_iff.mp hs
      exact runsBelow_firstImage hchildren hi i.url (by simp [Leaf.texts])
    · exact hw.title _ d
  | tabItem title =>
    have htitle := (h title (by simp [Parent.texts])).runs
    simpa [directiveArgument] using htitle
  | grid columns =>
    intro s hs
    obtain ⟨ns, -, rfl⟩ := Option.map_eq_some_iff.mp hs
    exact runsBelow_of_not_mem hm.pos (not_mem_numberList (by decide) (by decide) ns)
  | directive name args options value =>
    simp only [Parent.texts, List.forall_mem_append, Option.mem_toList] at h
    exact fun s hs => (h.1.1.2 s hs).runs
  | _ => exact hnone

theorem isTame_figureOptions (hchildren : ∀ n ∈ cs, ∀ s ∈ n.texts, Sealed ':' k s.toList) :
    ∀ o ∈ figureOptions (firstImage cs), IsTame k o := by
  rw [figureOptions, List.forall_mem_append]
  constructor
  · refine isTame_some? (by decide) fun s hs => ?_
    obtain ⟨i, hi, hs⟩ := Option.bind_eq_some_iff.mp hs
    exact runsBelow_firstImage hchildren hi s (by simp [Leaf.texts, hs])
  · refine isTame_some? (by decide) fun s hs => ?_
    obtain ⟨i, hi, hs⟩ := Option.bind_eq_some_iff.mp hs
    exact runsBelow_firstImage hchildren hi s (by simp [Leaf.texts, hs])

theorem isTame_directiveOptions (hm : IsMark ':' k) (h : ∀ s ∈ p.texts, ':' ∉ s.toList)
    (hchildren : ∀ n ∈ cs, ∀ s ∈ n.texts, Sealed ':' k s.toList) :
    ∀ o ∈ directiveOptions (.parent p cs), IsTame k o := by
  have hruns : ∀ s ∈ p.texts, RunsBelow ':' k s.toList :=
    fun s hs => runsBelow_of_not_mem hm.pos (h s hs)
  have hnil : ∀ o ∈ ([] : List (String × String)), IsTame k o := by simp
  cases p with
  | admonition kind cssClass | aside kind cssClass =>
    simp only [Parent.texts, List.forall_mem_append, Option.mem_toList] at hruns
    exact isTame_some? (by decide) hruns.2
  | container kind t enumerator cssClass =>
    simp only [Parent.texts, Target.texts, List.forall_mem_append, Option.mem_toList] at hruns
    obtain ⟨⟨⟨-, -, hlabel⟩, -⟩, hclass⟩ := hruns
    rw [directiveOptions, List.forall_mem_append, List.forall_mem_append]
    refine ⟨⟨isTame_some? (by decide) hlabel, isTame_some? (by decide) hclass⟩, ?_⟩
    split
    · exact isTame_figureOptions hchildren
    · exact hnil
  | exercise t enumerator cssClass =>
    simp only [Parent.texts, Target.texts, List.forall_mem_append, Option.mem_toList] at hruns
    rw [directiveOptions, List.forall_mem_append]
    exact ⟨isTame_some? (by decide) hruns.1.1.2, isTame_some? (by decide) hruns.2⟩
  | solution t cssClass =>
    simp only [Parent.texts, Target.texts, List.forall_mem_append, Option.mem_toList] at hruns
    rw [directiveOptions, List.forall_mem_append]
    exact ⟨isTame_some? (by decide) hruns.1.2, isTame_some? (by decide) hruns.2⟩
  | proof kind t enumerator =>
    simp only [Parent.texts, Target.texts, List.forall_mem_append, Option.mem_toList] at hruns
    exact isTame_some? (by decide) hruns.1.2.2
  | card url =>
    simp only [Parent.texts, Option.mem_toList] at hruns
    exact isTame_some? (by decide) hruns
  | details opened =>
    rw [directiveOptions]
    split
    · exact List.forall_mem_singleton.mpr ⟨by decide, runsBelow_of_not_mem hm.pos (by decide)⟩
    · exact hnil
  | directive name args options value =>
    simp only [Parent.texts, List.forall_mem_append] at h
    exact isTame_rawOptions hm h.1.2
  | _ => exact hnil

theorem writes_cardBody (hm : IsMark ':' k) (hw : ListWrites ':' k cs) :
    Writes ':' k (cardBody cs) := by
  intro d
  have hheader := (hw.parts isHeader).after (Grows.refl hm d)
  have hmargin : Grows ':' k d (if cs.any (ofKind isHeader) then
      (writeParts isHeader cs d).newline.add "^^^\n" else writeParts isHeader cs d) := by
    split
    · exact (hheader.newline hm).push (hm.fixed _ (by decide))
    · exact hheader
  have hbody := (hw.blocks isCardPart false).after hmargin
  simp only [cardBody]
  split
  · exact (hw.parts isFooter).after
      ((hbody.newline hm).push (sealed_of_not_mem hm.pos (by decide)))
  · exact hbody

theorem writes_rawDirectiveBody (hm : IsMark ':' k) (hw : ListWrites ':' k cs)
    {value : Option String} (hvalue : ∀ s ∈ value, Sealed ':' k s.toList) :
    Writes ':' k (rawDirectiveBody value cs) := by
  intro d
  unfold rawDirectiveBody
  split
  next value _ => exact (Grows.refl hm d).rawBody hm (hvalue value rfl)
  next => exact hw.blocks nowhere false d

theorem writes_directiveBody (hm : IsMark ':' k) {n : Node}
    (h : ∀ s ∈ n.texts, Sealed ':' k s.toList) (hw : ListWrites ':' k n.children) :
    Writes ':' k (directiveBody n) := by
  cases n with
  | leaf l => exact Grows.refl hm
  | parent p cs =>
    cases p with
    | card url => exact writes_cardBody hm hw
    | directive name args options value =>
      simp only [Node.texts, Parent.texts, List.forall_mem_append, Option.mem_toList] at h
      exact writes_rawDirectiveBody hm hw h.2
    | _ => exact hw.blocks _ false

theorem writes_directive (hm : IsMark ':' k) (hp : writesDirective (.parent p cs) = true)
    (hdepth : 3 + directiveDepthAll cs < k) (htexts : ∀ s ∈ p.texts, Sealed ':' k s.toList)
    (hcolon : ∀ s ∈ p.texts, ':' ∉ s.toList)
    (hchildren : ∀ n ∈ cs, ∀ s ∈ n.texts, Sealed ':' k s.toList) (hw : ListWrites ':' k cs) :
    Writes ':' k (writeNode (.parent p cs)) := by
  intro d
  obtain ⟨d', hpage, hwritten⟩ := writeNode_directive hp d
  rw [hwritten]
  have hbody : Writes ':' k (directiveBody (.parent p cs)) := writes_directiveBody hm htexts hw
  exact hbody.directive hm hdepth (runsBelow_directiveName hm hcolon)
    (runsBelow_directiveArgument hm htexts hchildren hw d)
    (isTame_directiveOptions hm hcolon hchildren) (Grows.of_page hm hpage)

/-- A container with another kind than that of a directive. -/
theorem writes_container (hm : IsMark ':' k) (hk : 3 ≤ k) {kind : Option String} {t : Target}
    {enumerator cssClass : Option String}
    (hp : writesDirective (.parent (.container kind t enumerator cssClass) cs) = false)
    (h : ∀ s ∈ (Parent.container kind t enumerator cssClass).texts, Sealed ':' k s.toList)
    (hchildren : ∀ n ∈ cs, ∀ s ∈ n.texts, Sealed ':' k s.toList) (hw : ListWrites ':' k cs) :
    Writes ':' k (writeNode (.parent (.container kind t enumerator cssClass) cs)) := by
  intro d
  have hd := Grows.refl hm d
  simp only [Parent.texts, Target.texts, List.forall_mem_append, Option.mem_toList] at h
  obtain ⟨⟨⟨-, -, hlabel⟩, -⟩, hclass⟩ := h
  simp only [writeNode]
  split
  next => cases hp
  next => cases hp
  next =>
    have hcode : ∀ code ∈ firstCode cs, ∀ s ∈ (Leaf.code code).texts, Sealed ':' k s.toList :=
      fun code hcode => hchildren _ (mem_of_firstCode hcode)
    have hlang : ∀ s ∈ (firstCode cs).bind (·.lang), Sealed ':' k s.toList := by
      intro s hs
      obtain ⟨code, hmem, hs⟩ := Option.bind_eq_some_iff.mp hs
      exact hcode code hmem s (by simp [Leaf.texts, hs])
    have hvalue : Sealed ':' k (((firstCode cs).map (·.value)).getD "").toList := by
      cases hfirst : firstCode cs with
      | none => exact hm.nil
      | some code => exact hcode code hfirst code.value (by simp [Leaf.texts])
    have htitle : Grows ':' k d (writeTitle isCaption cs d).2 :=
      Grows.of_page hm (page_writeTitle isCaption cs d)
    refine htitle.block hm
      (sealed_fencedText hm (sealed_codeBlockInfo hm hlang) (sealed_optionLines hm hk ?_) hvalue)
    rw [List.forall_mem_append, List.forall_mem_append]
    exact ⟨⟨isTame_some? (by decide) fun s hs => (hlabel s hs).runs,
      isTame_some? (by decide) fun s hs => (hclass s hs).runs⟩,
      isTame_some? (by decide) (hw.title isCaption d)⟩
  next => exact (hw.blocks nowhere false).after hd

/-- The parents that only MyST has and that are no directives. -/
theorem writes_mystParent (hm : IsMark ':' k) (hk : 3 ≤ k) (hp : p.isMystOnly = true)
    (hdirective : writesDirective (.parent p cs) = false)
    (h : ∀ s ∈ p.texts, Sealed ':' k s.toList)
    (hchildren : ∀ n ∈ cs, ∀ s ∈ n.texts, Sealed ':' k s.toList) (hw : ListWrites ':' k cs) :
    Writes ':' k (writeNode (.parent p cs)) := by
  intro d
  have hd := Grows.refl hm d
  cases p with
  | container kind t enumerator cssClass => exact writes_container hm hk hdirective h hchildren hw d
  | inclusion file =>
    simp only [writeNode]
    exact (hw.blocks nowhere false).after hd
  | role name value =>
    simp only [Parent.texts, List.forall_mem_append, List.forall_mem_singleton,
      Option.mem_toList] at h
    simp only [writeNode]
    split
    next value =>
      have hname := ((hm.fixed ['\x7b'] (by decide)).append h.1).append
        (hm.fixed ['\x7d'] (by decide))
      exact (hd.inline hname).inlineCode hm (h.2 value rfl)
    next => exact hw.inlines.after hd
  | admonition | exercise | solution | proof | tabSet | tabItem | card | grid | details | aside
  | directive => cases hdirective
  | _ => cases hp

/-- One node, from what its children are written as. -/
theorem writes_node (hm : IsMark c k) {n : Node} (h : n.Quiet c k)
    (hchildren : ∀ m ∈ n.children, m.Quiet c k) (hw : ListWrites c k n.children) :
    Writes c k (writeNode n) := by
  cases n with
  | leaf l => exact writes_leaf hm h
  | parent p cs =>
    by_cases hp : p.isMystOnly
    · have hloud : ¬ (Node.parent p cs).isPlain = true := fun hplain => by
        rw [Parent.isMystOnly_of_isPlain hplain] at hp
        cases hp
      obtain ⟨rfl, hdepth, hcolon⟩ := h.plain.resolve_left hloud
      have hbelow : ∀ m ∈ cs, ∀ s ∈ m.texts, Sealed ':' k s.toList :=
        fun m hm => (hchildren m hm).texts
      by_cases hdirective : writesDirective (.parent p cs) = true
      · rw [directiveDepth, if_pos hdirective] at hdepth
        have hfence : 3 + directiveDepthAll cs < k := by omega
        exact writes_directive hm hdirective hfence h.texts hcolon hbelow hw
      · rw [Bool.not_eq_true] at hdirective
        exact writes_mystParent hm (by omega) hp hdirective h.texts hbelow hw
    · rw [Bool.not_eq_true] at hp
      exact writes_plainParent hm hp h.texts hw

/-! Lists of nodes. -/

theorem listWrites_nil (hm : IsMark c k) : ListWrites c k [] := by
  constructor
  · intro skip started d
    rw [writeBlocks]
    exact Grows.refl hm d
  · intro d
    rw [writeInlines]
    exact Grows.refl hm d
  · intro d
    rw [writeUnwrapped]
    exact Grows.refl hm d
  · intro kind d t ht
    rw [writeTitle] at ht
    cases ht
  · intro kind d
    rw [writeParts]
    exact Grows.refl hm d
  · intro spread started d
    rw [writeItemBody]
    exact Grows.refl hm d
  · intro ordered spread number d
    rw [writeItems]
    exact Grows.refl hm d
  · intro columns align first d
    rw [writeRows]
    exact Grows.refl hm d
  · intro d
    rw [writeCells]
    exact Grows.refl hm d
  · intro started d
    rw [writeDefinitions]
    exact Grows.refl hm d

variable {n : Node} {ns : List Node}

theorem writes_asBlock (hm : IsMark c k) (h : n.Quiet c k) (hn : Writes c k (writeNode n))
    {d d' : Draft} (hd : Grows c k d d') : Grows c k d (d'.asBlock n (writeNode n)) := by
  refine hn.asBlock hm ?_ hd
  rintro i rfl hi
  exact sealed_imageDirective hm h hi

theorem writes_item (hm : IsMark c k) (hchildren : ListWrites c k cs) (hns : ListWrites c k ns)
    (ordered spread itemSpread : Bool) (number : UInt32) :
    Writes c k (writeItems ordered spread number (.parent (.listItem itemSpread) cs :: ns)) := by
  intro d
  have hbody := (hchildren.itemBody (spread || itemSpread) false).capture d
  have hitem := sealed_itemText hm (sealed_marker hm ordered number).runs hbody
  have hd := ((Grows.refl hm d).of_captured
    (writeItemBody (spread || itemSpread) false cs)).push hitem
  simp only [writeItems]
  refine (hns.items ordered spread (number + 1)).after ?_
  split
  · exact hd.push hm.newline
  · exact hd

theorem writes_row (hm : IsMark c k) (hchildren : ListWrites c k cs) (hns : ListWrites c k ns)
    (columns : Nat) (align : List (Option Align)) (first : Bool) :
    Writes c k (writeRows columns align first (.parent .tableRow cs :: ns)) := by
  intro d
  have hcells := hchildren.cells.after ((Grows.refl hm d).push (hm.fixed ['|'] (by decide)))
  have hrow := hcells.push ((sealed_missingCells hm (columns - cs.length)).append hm.newline)
  simp only [writeRows]
  refine (hns.rows columns align false).after ?_
  split
  · exact hrow.push (sealed_separatorText hm columns align)
  · exact hrow

theorem writes_cell (hm : IsMark c k) (hchildren : ListWrites c k cs) (hns : ListWrites c k ns)
    (header : Option Bool) : Writes c k (writeCells (.parent (.tableCell header) cs :: ns)) := by
  intro d
  have hspace := (Grows.refl hm d).push (hm.fixed [' '] (by decide))
  have hcontent := hchildren.unwrapped.capture (d.push [' '])
  simp only [writeCells]
  exact hns.cells.after ((hspace.of_captured _).push (sealed_cellText hm hcontent))

theorem writes_term (hm : IsMark c k) (hchildren : ListWrites c k cs) (hns : ListWrites c k ns)
    (started : Bool) :
    Writes c k (writeDefinitions started (.parent .definitionTerm cs :: ns)) := by
  intro d
  have hd := (Grows.refl hm d).separated hm started
  have hterm := hchildren.unwrapped.captureLine hm (if started then d.blankLine else d)
  simp only [writeDefinitions]
  exact (hns.definitions true).after ((hd.of_capturedLine _).push (hm.line hterm))

theorem writes_description (hm : IsMark c k) (hchildren : ListWrites c k cs)
    (hns : ListWrites c k ns) (started : Bool) :
    Writes c k (writeDefinitions started (.parent .definitionDescription cs :: ns)) := by
  intro d
  have hbody := (hchildren.blocks nowhere false).capture d
  simp only [writeDefinitions]
  exact (hns.definitions true).after
    (((Grows.refl hm d).of_captured _).push (sealed_descriptionText hm hbody))

theorem listWrites_cons (hm : IsMark c k) (h : n.Quiet c k) (hn : Writes c k (writeNode n))
    (hchildren : ListWrites c k n.children) (hns : ListWrites c k ns) :
    ListWrites c k (n :: ns) := by
  constructor
  · intro skip started d
    have hd := (Grows.refl hm d).separated hm started
    rw [writeBlocks]
    split
    · exact hns.blocks skip started d
    · exact (hns.blocks skip true).after (writes_asBlock hm h hn hd)
  · intro d
    rw [writeInlines]
    exact hns.inlines.after (hn d)
  · intro d
    rw [writeUnwrapped.eq_def]
    split
    next heq => cases heq
    next heq =>
      cases heq
      exact hns.unwrapped.after (hchildren.inlines _)
    next heq =>
      cases heq
      exact hns.unwrapped.after (hn _)
  · intro kind d t ht
    rw [writeTitle.eq_def] at ht
    split at ht
    next heq => cases heq
    next heq =>
      cases heq
      exact hns.title kind _ t ht
    next heq =>
      cases heq
      split at ht
      · cases ht
        rw [String.toList_ofList]
        exact hchildren.unwrapped.captureLine hm _
      · exact hns.title kind _ t ht
  · intro kind d
    rw [writeParts]
    refine (hns.parts kind).after ?_
    split
    · exact hn d
    · exact Grows.refl hm d
  · intro spread started d
    have hd : Grows c k d
        (if started then (if spread then d.blankLine else d.newline) else d) := by
      split
      · split
        · exact (Grows.refl hm d).blankLine hm
        · exact (Grows.refl hm d).newline hm
      · exact Grows.refl hm d
    rw [writeItemBody]
    exact (hns.itemBody spread true).after (writes_asBlock hm h hn hd)
  · intro ordered spread number d
    cases n with
    | leaf l => exact hns.items ordered spread number d
    | parent p cs =>
      cases p with
      | listItem itemSpread => exact writes_item hm hchildren hns ordered spread itemSpread number d
      | _ => exact hns.items ordered spread number d
  · intro columns align first d
    cases n with
    | leaf l => exact hns.rows columns align first d
    | parent p cs =>
      cases p with
      | tableRow => exact writes_row hm hchildren hns columns align first d
      | _ => exact hns.rows columns align first d
  · intro d
    cases n with
    | leaf l => exact hns.cells d
    | parent p cs =>
      cases p with
      | tableCell header => exact writes_cell hm hchildren hns header d
      | _ => exact hns.cells d
  · intro started d
    cases n with
    | leaf l => exact hns.definitions true d
    | parent p cs =>
      cases p with
      | definitionTerm => exact writes_term hm hchildren hns started d
      | definitionDescription => exact writes_description hm hchildren hns started d
      | _ => exact hns.definitions true d

/-! Documents. -/

mutual

theorem writes_of_quiet (hm : IsMark c k) : (n : Node) → n.Everywhere (Node.Quiet c k) →
    Writes c k (writeNode n) ∧ ListWrites c k n.children
  | .leaf l, h => by
    have hw := listWrites_nil hm
    exact ⟨writes_leaf hm (Node.everywhere_leaf.mp h), hw⟩
  | .parent p cs, h => by
    obtain ⟨hp, hcs⟩ := Node.everywhere_parent.mp h
    have hw := listWrites_of_quiet hm cs hcs
    exact ⟨writes_node hm hp (fun m hmem => (hcs m hmem).self) hw, hw⟩

theorem listWrites_of_quiet (hm : IsMark c k) : (ns : List Node) →
    (∀ n ∈ ns, n.Everywhere (Node.Quiet c k)) → ListWrites c k ns
  | [], _ => listWrites_nil hm
  | n :: ns, h => by
    obtain ⟨hn, hns⟩ := List.forall_mem_cons.mp h
    have hw := writes_of_quiet hm n hn
    exact listWrites_cons hm hn.self hw.1 hw.2 (listWrites_of_quiet hm ns hns)

end

theorem quiet_of_plainIn {Q : String → Prop} (hQ : ∀ s, Q s → Sealed c k s.toList) {ns : List Node}
    (h : CommonMark.PlainIn Q ns) : ∀ n ∈ ns, n.Everywhere (Node.Quiet c k) := by
  intro n hn m hm
  obtain ⟨hplain, htexts⟩ := h n hn m hm
  exact ⟨fun s hs => hQ s (htexts s hs), .inl hplain⟩

end Markdown
end MystNotebook
