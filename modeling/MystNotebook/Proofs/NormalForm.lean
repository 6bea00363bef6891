import MystNotebook.CommonMark.Degrade
import MystNotebook.Proofs.NodeTexts

/-! What degrading leaves: a tree of plain kinds at every depth, whose code and images carry no
presentation and of which nothing is the target of a reference. -/
namespace MystNotebook

/-- The kinds of parent that give way to others. -/
def Parent.isMystOnly : Parent → Bool
  | .admonition _ _ | .container _ _ _ _ | .exercise _ _ _ | .solution _ _ | .proof _ _ _ | .tabSet
  | .tabItem _ | .card _ | .grid _ | .details _ | .aside _ _ | .inclusion _ | .directive _ _ _ _
  | .role _ _ => true
  | _ => false

def Parent.isPlain : Parent → Bool
  | .block _ _ target | .heading _ target => target == {}
  | .other _ fields => ["identifier", "label", "html_id"].all fun key => (fields.get? key).isNone
  | p => !p.isMystOnly

def Code.isPlain (c : Code) : Bool :=
  c.cssClass.isNone && c.emphasizeLines.isNone && c.showLineNumbers.isNone &&
    c.startingLineNumber.isNone && c.filename.isNone && c.target == {}

def Image.isPlain (i : Image) : Bool :=
  i.cssClass.isNone && i.width.isNone && i.height.isNone && i.align.isNone

def Leaf.isPlain : Leaf → Bool
  | .math _ | .inlineMath _ | .target _ | .comment _ => false
  | .code c => c.isPlain
  | .image i => i.isPlain
  | _ => true

/-- Whether the node itself, apart from its children, is plain CommonMark. -/
def Node.isPlain : Node → Bool
  | .leaf l => l.isPlain
  | .parent p _ => p.isPlain

theorem Parent.isPlain_withoutTarget {p : Parent} (h : p.isMystOnly = false) :
    p.withoutTarget.isPlain = true := by
  cases p with
  | block | heading => rfl
  | other =>
    simp [withoutTarget, isPlain, Json.Fields.get?_erase_self, Json.Fields.get?_erase_of_ne]
  | _ => exact congrArg not h

theorem Parent.isMystOnly_of_isPlain {p : Parent} (h : p.isPlain = true) :
    p.isMystOnly = false := by
  cases p with
  | block | heading | other => rfl
  | _ => simpa [isPlain] using h

theorem Leaf.isPlain_withoutTarget {l : Leaf} (h : l.isPlain = true) :
    l.withoutTarget.isPlain = true := by
  cases l with
  | code c =>
    rw [isPlain, Code.isPlain, Bool.and_eq_true] at h
    simpa [withoutTarget, isPlain, Code.isPlain] using h.1
  | math m => simp [isPlain] at h
  | _ => exact h

namespace CommonMark

/-- All nodes are plain at every depth. -/
def Plain (ns : List Node) : Prop := ∀ n ∈ ns, n.Everywhere fun m => m.isPlain = true

/-- All nodes are plain at every depth, and `Q` holds of their texts. -/
def PlainIn (Q : String → Prop) (ns : List Node) : Prop :=
  ∀ n ∈ ns, n.Everywhere fun m => m.isPlain = true ∧ ∀ s ∈ m.texts, Q s

/-- The texts that degrading adds by itself. -/
def fixedTexts : List String :=
  ["", " ", ": ", " (", ")", "Exercise", "Solution", "Figure", "Table", "Details", "note", "proof",
    "$", "$$\n", "\n$$", "\n<!-- (", ") -->"]

/-- What degrading makes of texts for which `Q` holds is such a text again. -/
structure TextClosed (Q : String → Prop) : Prop where
  fixed : ∀ s ∈ fixedTexts, Q s
  append : ∀ {s t}, Q s → Q t → Q (s ++ t)
  capitalize : ∀ {s}, Q s → Q (Text.capitalize s)
  withoutDomain : ∀ {s}, Q s → Q (withoutDomain s)

section
variable {Q : String → Prop}

@[simp] theorem plainIn_nil : PlainIn Q [] := by
  simp [PlainIn]

@[simp] theorem plainIn_leaf_cons {l : Leaf} {ns : List Node} :
    PlainIn Q (.leaf l :: ns) ↔ (l.isPlain = true ∧ ∀ s ∈ l.texts, Q s) ∧ PlainIn Q ns := by
  simp [PlainIn, Node.isPlain, Node.texts]

@[simp] theorem plainIn_parent_cons {p : Parent} {cs ns : List Node} :
    PlainIn Q (.parent p cs :: ns) ↔
      ((p.isPlain = true ∧ ∀ s ∈ p.texts, Q s) ∧ PlainIn Q cs) ∧ PlainIn Q ns := by
  simp [PlainIn, Node.isPlain, Node.texts]

@[simp] theorem plainIn_append {ms ns : List Node} :
    PlainIn Q (ms ++ ns) ↔ PlainIn Q ms ∧ PlainIn Q ns :=
  List.forall_mem_append

theorem PlainIn.of_mem {n : Node} {ns : List Node} (h : PlainIn Q ns) (hn : n ∈ ns) :
    PlainIn Q [n] := by
  simpa [PlainIn] using h n hn

theorem plainIn_of_forall {ns : List Node} (h : ∀ n ∈ ns, PlainIn Q [n]) : PlainIn Q ns := by
  simpa [PlainIn] using h

theorem PlainIn.filter {ns : List Node} (h : PlainIn Q ns) (keep : Node → Bool) :
    PlainIn Q (ns.filter keep) :=
  fun n hn => h n (List.mem_filter.mp hn).1

theorem plainIn_withoutTarget {ns : List Node} (h : PlainIn Q ns) :
    PlainIn Q (ns.map Node.withoutTarget) := by
  refine plainIn_of_forall fun m hm => ?_
  obtain ⟨n, hn, rfl⟩ := List.mem_map.mp hm
  have hn := h.of_mem hn
  cases n with
  | leaf l =>
    simp only [plainIn_leaf_cons, plainIn_nil, and_true] at hn
    simpa [Node.withoutTarget] using And.intro (Leaf.isPlain_withoutTarget hn.1)
      fun s hs => hn.2 s (l.texts_withoutTarget_subset hs)
  | parent p cs =>
    simp only [plainIn_parent_cons, plainIn_nil, and_true] at hn
    simpa [Node.withoutTarget] using And.intro (And.intro
      (Parent.isPlain_withoutTarget (Parent.isMystOnly_of_isPlain hn.1.1))
      fun s hs => hn.1.2 s (p.texts_withoutTarget_subset hs)) hn.2

/-! The parts from which a replacement is built. -/

@[simp] theorem plainIn_text (value : String) (ns : List Node) :
    PlainIn Q (.text value :: ns) ↔ Q value ∧ PlainIn Q ns := by
  simp [Node.text, Leaf.isPlain, Leaf.texts]

@[simp] theorem plainIn_html (value : String) (ns : List Node) :
    PlainIn Q (.html value :: ns) ↔ Q value ∧ PlainIn Q ns := by
  simp [Node.html, Leaf.isPlain, Leaf.texts]

@[simp] theorem plainIn_paragraph (cs ns : List Node) :
    PlainIn Q (.paragraph cs :: ns) ↔ PlainIn Q cs ∧ PlainIn Q ns := by
  simp [Node.paragraph, Parent.isPlain, Parent.isMystOnly, Parent.texts]

@[simp] theorem plainIn_emphasis (cs ns : List Node) :
    PlainIn Q (.emphasis cs :: ns) ↔ PlainIn Q cs ∧ PlainIn Q ns := by
  simp [Node.emphasis, Parent.isPlain, Parent.isMystOnly, Parent.texts]

@[simp] theorem plainIn_blockquote (cs ns : List Node) :
    PlainIn Q (.blockquote cs :: ns) ↔ PlainIn Q cs ∧ PlainIn Q ns := by
  simp [Node.blockquote, Parent.isPlain, Parent.isMystOnly, Parent.texts]

@[simp] theorem plainIn_boldParagraph (cs ns : List Node) :
    PlainIn Q (boldParagraph cs :: ns) ↔ PlainIn Q cs ∧ PlainIn Q ns := by
  simp [boldParagraph, Node.strong, Parent.isPlain, Parent.isMystOnly, Parent.texts]

theorem TextClosed.getD (hQ : TextClosed Q) {o : Option String} (ho : ∀ s ∈ o, Q s)
    {default : String} (hdefault : default ∈ fixedTexts) : Q (o.getD default) := by
  cases o with
  | none => exact hQ.fixed default hdefault
  | some s => exact ho s rfl

theorem plainIn_numberedLabel (hQ : TextClosed Q) {name : String} (hname : Q name)
    {enumerator : Option String} (h : ∀ s ∈ enumerator, Q s) :
    PlainIn Q (numberedLabel name enumerator) := by
  unfold numberedLabel
  split
  next n =>
    have hlabel : Q (name ++ " " ++ n) :=
      hQ.append (hQ.append hname (hQ.fixed " " (by decide))) (h n rfl)
    split <;> simp [hname, hlabel]
  next => simp [hname]

theorem plainIn_numberedPrefix (hQ : TextClosed Q) {name : String} (hname : Q name)
    {enumerator : Option String} (h : ∀ s ∈ enumerator, Q s) :
    PlainIn Q (numberedPrefix name enumerator) := by
  unfold numberedPrefix
  split
  next n =>
    have hlabel : Q (name ++ " " ++ n ++ ": ") :=
      hQ.append (hQ.append (hQ.append hname (hQ.fixed " " (by decide))) (h n rfl))
        (hQ.fixed ": " (by decide))
    split <;> simp [hlabel]
  next => simp

theorem plainIn_unwrapped {n : Node} (h : PlainIn Q [n]) : PlainIn Q (unwrapped n) := by
  unfold unwrapped
  split
  · simp only [plainIn_parent_cons, plainIn_nil, and_true] at h
    exact h.2
  · exact h

theorem plainIn_appendInline (hQ : TextClosed Q) {out : List Node} {n : Node}
    (hout : PlainIn Q out) (hn : PlainIn Q [n]) : PlainIn Q (appendInline out n) := by
  have hspace : Q " " := hQ.fixed " " (by decide)
  simp only [appendInline]
  split <;> simp [hout, plainIn_unwrapped hn, hspace]

theorem plainIn_inlineContent (hQ : TextClosed Q) {ns : List Node} (h : PlainIn Q ns) :
    PlainIn Q (inlineContent ns) := by
  -- the invariant is that what has been gathered so far is plain
  suffices key : ∀ out, PlainIn Q out → PlainIn Q (ns.foldl appendInline out) from
    key [] plainIn_nil
  induction ns with
  | nil => exact fun out hout => hout
  | cons n ns ih =>
    intro out hout
    have hns : PlainIn Q ns := fun m hm => h m (List.mem_cons_of_mem n hm)
    exact ih hns _ (plainIn_appendInline hQ hout (h.of_mem List.mem_cons_self))

theorem plainIn_title (hQ : TextClosed Q) {cs t : List Node} (h : PlainIn Q cs)
    (ht : (splitTitle cs).1 = some t) : PlainIn Q t := by
  unfold splitTitle at ht
  split at ht
  · simp only [plainIn_parent_cons] at h
    cases ht
    exact plainIn_inlineContent hQ h.1.2
  · cases ht

theorem plainIn_body {cs : List Node} (h : PlainIn Q cs) : PlainIn Q (splitTitle cs).2 := by
  unfold splitTitle
  split
  · simp only [plainIn_parent_cons] at h
    exact h.2
  · exact h

theorem eq_of_nonEmpty {ns t : List Node} (h : nonEmpty ns = some t) : ns = t := by
  unfold nonEmpty at h
  split at h
  · cases h
  · exact Option.some.inj h

theorem plainIn_nonEmptyTitle (hQ : TextClosed Q) {cs t : List Node} (h : PlainIn Q cs)
    (ht : (splitTitle cs).1.bind nonEmpty = some t) : PlainIn Q t := by
  obtain ⟨u, hu, hn⟩ := Option.bind_eq_some_iff.mp ht
  obtain rfl := eq_of_nonEmpty hn
  exact plainIn_title hQ h hu

theorem plainIn_partOf {p : Parent} {n : Node} {ns t : List Node} (h : PlainIn Q ns) (hn : n ∈ ns)
    (ht : partOf p n = some t) : PlainIn Q t := by
  obtain rfl := partOf_eq_some.mp ht
  have hp := h.of_mem hn
  simp only [plainIn_parent_cons, plainIn_nil, and_true] at hp
  exact hp.2

theorem plainIn_lastOf {p : Parent} {ns t : List Node} (h : PlainIn Q ns)
    (ht : lastOf (partOf p) ns = some t) : PlainIn Q t := by
  obtain ⟨n, hn, hnt⟩ := List.exists_of_findSome?_eq_some ht
  exact plainIn_partOf h (List.mem_reverse.mp hn) hnt

theorem plainIn_legends {cs : List Node} (h : PlainIn Q cs) :
    PlainIn Q (cs.filterMap legend?).flatten := by
  intro n hn
  obtain ⟨t, ht, hnt⟩ := List.mem_flatten.mp hn
  obtain ⟨m, hm, hmt⟩ := List.mem_filterMap.mp ht
  exact plainIn_partOf h hm hmt n hnt

theorem plainIn_described {ns : List Node} (h : PlainIn Q ns) {caption : String}
    (hcaption : Q caption) : PlainIn Q (ns.map (described caption)) := by
  refine plainIn_of_forall fun m hm => ?_
  obtain ⟨n, hn, rfl⟩ := List.mem_map.mp hm
  have hn := h.of_mem hn
  unfold described
  split
  next i =>
    split
    · simp only [plainIn_leaf_cons, plainIn_nil, and_true, Leaf.texts, List.forall_mem_append] at hn
      obtain ⟨hplain, ⟨⟨⟨⟨hnamed, -⟩, hclass⟩, hwidth⟩, hheight⟩, halign⟩ := hn
      have halt : ∀ s ∈ (some caption).toList, Q s := by simpa using hcaption
      simp only [plainIn_leaf_cons, plainIn_nil, and_true, Leaf.texts, List.forall_mem_append]
      exact ⟨hplain, ⟨⟨⟨⟨hnamed, halt⟩, hclass⟩, hwidth⟩, hheight⟩, halign⟩
    · exact hn
  next => exact hn

/-- The plain text of plain nodes is put together from their texts. -/
theorem TextClosed.plainText (hQ : TextClosed Q) {ns : List Node} (h : PlainIn Q ns) :
    Q (Node.plainText ns) := by
  have hparts : ∀ s ∈ (Node.preorderAll ns).map Node.ownText, Q s := by
    intro s hs
    obtain ⟨n, hn, rfl⟩ := List.mem_map.mp hs
    rcases n.ownText_mem with hempty | hmem
    · rw [hempty]
      exact hQ.fixed "" (by decide)
    · exact (Node.forall_mem_preorderAll.mpr h n hn).2 _ hmem
  have hfold (l : List String) (hl : ∀ s ∈ l, Q s) (start : String) (hstart : Q start) :
      Q (l.foldl (· ++ ·) start) := by
    induction l generalizing start with
    | nil => exact hstart
    | cons s l ih =>
      obtain ⟨hs, hl⟩ := List.forall_mem_cons.mp hl
      exact ih hl _ (hQ.append hstart hs)
  exact hfold _ hparts "" (hQ.fixed "" (by decide))

/-! The replacements. -/

theorem plainIn_headed (hQ : TextClosed Q) {cs : List Node} (h : PlainIn Q cs) {name : String}
    (hname : Q name) {enumerator : Option String} (henumerator : ∀ s ∈ enumerator, Q s) :
    PlainIn Q (headed name enumerator cs) := by
  have hlabel := plainIn_numberedLabel hQ hname henumerator
  have hopen : Q " (" := hQ.fixed " (" (by decide)
  have hclose : Q ")" := hQ.fixed ")" (by decide)
  simp only [headed]
  split
  next t ht =>
    have := plainIn_nonEmptyTitle hQ h ht
    simp [plainIn_body h, this, hlabel, hopen, hclose]
  next => simp [plainIn_body h, hlabel]

theorem plainIn_admonition (hQ : TextClosed Q) {cs : List Node} (h : PlainIn Q cs)
    {kind : Option String} (hkind : ∀ s ∈ kind, Q s) : PlainIn Q [admonition kind cs] := by
  have hb := plainIn_body h
  have hname : Q (Text.capitalize (kind.getD "note")) :=
    hQ.capitalize (hQ.getD hkind (by decide))
  cases ht : (splitTitle cs).1 with
  | none => simp [admonition, ht, hb, hname]
  | some t => simp [admonition, ht, hb, plainIn_title hQ h ht]

theorem plainIn_aside (hQ : TextClosed Q) {cs : List Node} (h : PlainIn Q cs) :
    PlainIn Q [aside cs] := by
  have hb := plainIn_body h
  cases ht : (splitTitle cs).1.bind nonEmpty with
  | none => simp [aside, ht, hb]
  | some t => simp [aside, ht, hb, plainIn_nonEmptyTitle hQ h ht]

theorem plainIn_container (hQ : TextClosed Q) {cs : List Node} (h : PlainIn Q cs)
    (kind : Option String) {enumerator : Option String} (henumerator : ∀ s ∈ enumerator, Q s) :
    PlainIn Q (container kind enumerator cs) := by
  have hl := plainIn_legends h
  have hr := h.filter fun n => (caption? n).isNone && (legend? n).isNone
  have hfigure := plainIn_numberedPrefix hQ (hQ.fixed "Figure" (by decide)) henumerator
  have htable := plainIn_numberedPrefix hQ (hQ.fixed "Table" (by decide)) henumerator
  simp only [container]
  cases hc : lastOf caption? cs with
  | none =>
    have hnone : Q (Node.plainText []) := hQ.fixed "" (by decide)
    split <;> simp [hl, hr, plainIn_described hr hnone]
  | some c =>
    have hcaption := plainIn_lastOf h hc
    have hshown := plainIn_inlineContent hQ hcaption
    split <;>
      simp [hl, hr, plainIn_described hr (hQ.plainText hcaption), hshown, hfigure, htable]

theorem plainIn_card (hQ : TextClosed Q) {cs : List Node} (h : PlainIn Q cs) {url : Option String}
    (hurl : ∀ s ∈ url, Q s) : PlainIn Q (card url cs) := by
  have hb := h.filter fun n => (cardTitle? n).isNone && !isCardMargin n
  simp only [card]
  cases hc : lastOf cardTitle? cs with
  | none => simpa using hb
  | some c =>
    have ht := plainIn_inlineContent hQ (plainIn_lastOf h hc)
    cases hn : nonEmpty (inlineContent c) with
    | none => simpa [hn] using hb
    | some t =>
      rw [eq_of_nonEmpty hn] at ht
      cases url with
      | none => simp [hn, hb, ht]
      | some url =>
        have hu := hurl url rfl
        simp [hn, hb, ht, hu, Parent.isPlain, Parent.isMystOnly, Parent.texts]

theorem plainIn_details (hQ : TextClosed Q) {cs : List Node} (h : PlainIn Q cs) :
    PlainIn Q [details cs] := by
  have hb := h.filter fun n => (summary? n).isNone
  have hdetails : Q "Details" := hQ.fixed "Details" (by decide)
  simp only [details]
  cases hc : (lastOf summary? cs).bind fun s => nonEmpty (inlineContent s) with
  | none => simp [hb, hdetails]
  | some t =>
    obtain ⟨c, hc, hn⟩ := Option.bind_eq_some_iff.mp hc
    have ht := plainIn_inlineContent hQ (plainIn_lastOf h hc)
    rw [eq_of_nonEmpty hn] at ht
    simp [hb, ht]

theorem plainIn_directive {cs : List Node} (h : PlainIn Q cs) {name : String} (hname : Q name)
    {value : Option String} (hvalue : ∀ s ∈ value, Q s) :
    PlainIn Q (directive name value cs) := by
  unfold directive
  split
  · exact h
  · split
    next value =>
      have hv := hvalue value rfl
      by_cases hempty : name.isEmpty = true
      · simp [Leaf.isPlain, Code.isPlain, Leaf.texts, Target.texts, hempty, hv]
      · simp [Leaf.isPlain, Code.isPlain, Leaf.texts, Target.texts, hempty, hv, hname]
    next => exact plainIn_nil

theorem plainIn_role {cs : List Node} (h : PlainIn Q cs) {value : Option String}
    (hvalue : ∀ s ∈ value, Q s) : PlainIn Q (role value cs) := by
  unfold role
  split
  · exact h
  · cases value with
    | none => simp
    | some value => simpa [Leaf.isPlain, Leaf.texts] using hvalue value rfl

theorem degradeParent_eq_self {p : Parent} (h : p.isMystOnly = false) (dropSolutions : Bool)
    (cs : List Node) : degradeParent dropSolutions p cs = [.parent p cs] := by
  cases p <;> first | rfl | cases h

theorem TextClosed.proofName (hQ : TextClosed Q) {kind : Option String} (h : ∀ s ∈ kind, Q s) :
    Q (proofName kind) := by
  have hkind : Q (CommonMark.withoutDomain (kind.getD "")) :=
    hQ.withoutDomain (hQ.getD h (by decide))
  refine hQ.capitalize ?_
  split
  · exact hQ.fixed "proof" (by decide)
  · exact hkind

theorem plainIn_degradeParent (hQ : TextClosed Q) {cs : List Node} (h : PlainIn Q cs)
    (dropSolutions : Bool) {p : Parent} (htexts : ∀ s ∈ p.texts, Q s) :
    PlainIn Q ((degradeParent dropSolutions p cs).map Node.withoutTarget) := by
  by_cases hp : p.isMystOnly
  · refine plainIn_withoutTarget ?_
    cases p with
    | admonition kind cssClass =>
      simp only [Parent.texts, List.forall_mem_append, Option.mem_toList] at htexts
      exact plainIn_admonition hQ h htexts.1
    | container kind t enumerator cssClass =>
      simp only [Parent.texts, List.forall_mem_append, Option.mem_toList] at htexts
      exact plainIn_container hQ h kind htexts.1.2
    | exercise t enumerator cssClass =>
      simp only [Parent.texts, List.forall_mem_append, Option.mem_toList] at htexts
      exact plainIn_headed hQ h (hQ.fixed "Exercise" (by decide)) htexts.1.2
    | solution =>
      simp only [degradeParent]
      split
      · exact plainIn_nil
      · exact plainIn_headed hQ h (hQ.fixed "Solution" (by decide)) (by simp)
    | proof kind t enumerator =>
      simp only [Parent.texts, List.forall_mem_append, Option.mem_toList] at htexts
      exact plainIn_headed hQ h (hQ.proofName htexts.1.1) htexts.2
    | tabSet | grid | inclusion => exact h
    | tabItem title =>
      have htitle := htexts title (by simp [Parent.texts])
      simp only [degradeParent]
      split <;> simp [h, htitle]
    | card url =>
      simp only [Parent.texts, Option.mem_toList] at htexts
      exact plainIn_card hQ h htexts
    | details => exact plainIn_details hQ h
    | aside => exact plainIn_aside hQ h
    | directive name args options value =>
      simp only [Parent.texts, List.forall_mem_append, List.forall_mem_singleton,
        Option.mem_toList] at htexts
      exact plainIn_directive h htexts.1.1.1 htexts.2
    | role name value =>
      simp only [Parent.texts, List.forall_mem_append, Option.mem_toList] at htexts
      exact plainIn_role h htexts.2
    | _ => simp [Parent.isMystOnly] at hp
  · rw [Bool.not_eq_true] at hp
    have hwithout : ∀ s ∈ p.withoutTarget.texts, Q s :=
      fun s hs => htexts s (p.texts_withoutTarget_subset hs)
    simpa [degradeParent_eq_self hp, Node.withoutTarget] using
      And.intro (And.intro (Parent.isPlain_withoutTarget hp) hwithout) h

theorem TextClosed.mathText (hQ : TextClosed Q) {m : Math}
    (h : ∀ s ∈ (Leaf.math m).texts, Q s) : Q (mathText m) := by
  have hvalue : Q m.value := h m.value (by simp [Leaf.texts])
  have hbody : Q ("$$\n" ++ m.value ++ "\n$$") :=
    hQ.append (hQ.append (hQ.fixed "$$\n" (by decide)) hvalue) (hQ.fixed "\n$$" (by decide))
  refine hQ.append hbody ?_
  split
  next label hlabel =>
    have hl : Q label := h label (by simp [Leaf.texts, Target.texts, hlabel])
    exact hQ.append (hQ.append (hQ.fixed "\n<!-- (" (by decide)) hl) (hQ.fixed ") -->" (by decide))
  next => exact hQ.fixed "" (by decide)

theorem plainIn_degradeLeaf (hQ : TextClosed Q) {l : Leaf} (h : ∀ s ∈ l.texts, Q s) :
    PlainIn Q ((degradeLeaf l).map Node.withoutTarget) := by
  cases l with
  | math m =>
    have hm := hQ.mathText h
    simpa [degradeLeaf, Node.withoutTarget, Leaf.withoutTarget, Leaf.isPlain, Leaf.texts,
      Node.html] using hm
  | inlineMath value =>
    have hdollar : Q "$" := hQ.fixed "$" (by decide)
    have hm : Q ("$" ++ value ++ "$") :=
      hQ.append (hQ.append hdollar (h value (by simp [Leaf.texts]))) hdollar
    simpa [degradeLeaf, Node.withoutTarget, Leaf.withoutTarget, Leaf.isPlain, Leaf.texts,
      Node.html] using hm
  | code c =>
    have hkept : ∀ s ∈ c.lang.toList ++ c.metadata.toList ++ [c.value], Q s := by
      intro s hs
      refine h s ?_
      rw [Leaf.texts, List.append_assoc, List.append_assoc]
      exact List.mem_append_left _ hs
    simpa [degradeLeaf, Node.withoutTarget, Leaf.withoutTarget, Leaf.isPlain, Code.isPlain,
      Leaf.texts, Target.texts] using hkept
  | image i =>
    have hkept : ∀ s ∈ [i.url] ++ i.title.toList ++ i.alt.toList, Q s := by
      intro s hs
      refine h s ?_
      rw [Leaf.texts, List.append_assoc, List.append_assoc, List.append_assoc]
      exact List.mem_append_left _ hs
    simpa [degradeLeaf, Node.withoutTarget, Leaf.withoutTarget, Leaf.isPlain, Image.isPlain,
      Leaf.texts] using hkept
  | target | comment => simp [degradeLeaf]
  | _ => simpa [degradeLeaf, Node.withoutTarget, Leaf.withoutTarget, Leaf.isPlain] using h

mutual

theorem plainIn_degradeNode (hQ : TextClosed Q) (dropSolutions : Bool) : (n : Node) →
    (n.Everywhere fun m => ∀ s ∈ m.texts, Q s) →
    PlainIn Q ((degradeNode dropSolutions n).map Node.withoutTarget)
  | .leaf l, h => by
    rw [degradeNode]
    exact plainIn_degradeLeaf hQ (Node.everywhere_leaf.mp h)
  | .parent p cs, h => by
    obtain ⟨hp, hcs⟩ := Node.everywhere_parent.mp h
    rw [degradeNode]
    exact plainIn_degradeParent hQ (plainIn_degrade hQ dropSolutions cs hcs) dropSolutions hp

/-- Degrading leaves plain nodes, and no texts but those that it can make of the given ones. -/
theorem plainIn_degrade (hQ : TextClosed Q) (dropSolutions : Bool) : (ns : List Node) →
    (∀ n ∈ ns, n.Everywhere fun m => ∀ s ∈ m.texts, Q s) → PlainIn Q (degrade dropSolutions ns)
  | [], _ => by simp [degrade]
  | n :: ns, h => by
    obtain ⟨hn, hns⟩ := List.forall_mem_cons.mp h
    rw [degrade, plainIn_append]
    exact ⟨plainIn_degradeNode hQ dropSolutions n hn, plainIn_degrade hQ dropSolutions ns hns⟩

end

end

theorem plain_degrade (dropSolutions : Bool) (ns : List Node) :
    Plain (degrade dropSolutions ns) := by
  have hany : TextClosed fun _ => True := ⟨by simp, by simp, by simp, by simp⟩
  have hplain := plainIn_degrade hany dropSolutions ns fun n _ m _ s _ => trivial
  exact fun n hn m hm => (hplain n hn m hm).1

/-- Nothing that only MyST can express is left at any depth, no code or image has an attribute that
CommonMark cannot express, and no block, heading, code or unknown node is a target. -/
theorem degrade_normalForm (dropSolutions : Bool) (ns : List Node) :
    (Node.preorderAll (degrade dropSolutions ns)).all Node.isPlain = true := by
  rw [List.all_eq_true, Node.forall_mem_preorderAll]
  exact plain_degrade dropSolutions ns

end CommonMark
end MystNotebook
