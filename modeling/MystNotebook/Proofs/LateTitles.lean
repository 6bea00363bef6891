import MystNotebook.Proofs.PlacedParts

/-! Titles behind the body. All parts are taken apart by the parent that they belong to, wherever
they stand among its children; only a title must lead, and behind something that leaves content it
stays as it is, up to the result. -/
namespace MystNotebook.CommonMark
open Node

variable {d : Bool} {q : Parent}

/-! Titles that stay. -/

/-- The nodes with only the last of the parts of a kind. -/
def onlyLast (q : Parent) (ns : List Node) : List Node :=
  ns.filter (fun n => (partOf q n).isNone) ++ ((lastOf (partOf q) ns).map (Node.parent q)).toList

/-- The children of a parent that have a place in what it gives way to. -/
def kept (dropSolutions : Bool) (p : Parent) (cs : List Node) : List Node :=
  match p with
  | .solution _ _ => if dropSolutions then [] else cs
  | .container kind _ _ _ =>
    if kind = some "code" then cs.filter fun c => !c.isPart else onlyLast .caption cs
  | .card _ => (onlyLast .cardTitle cs).filter fun c => !isCardMargin c
  | .details _ => onlyLast .summary cs
  | _ => cs

/-- The node is among the others, or below one of them where it has a place in the result. -/
inductive Reaches (dropSolutions : Bool) (n : Node) : List Node → Prop
  | here {ns : List Node} : n ∈ ns → Reaches dropSolutions n ns
  | inside {ns : List Node} {p : Parent} {cs : List Node} : .parent p cs ∈ ns →
    Reaches dropSolutions n (kept dropSolutions p cs) → Reaches dropSolutions n ns

/-- A title behind something that leaves content. -/
def LateTitle (dropSolutions : Bool) (cs : List Node) : Prop :=
  ∃ before title after, cs = before ++ .parent .admonitionTitle title :: after ∧
    degrade dropSolutions before ≠ []

/-- Whether a parent makes a header of its title. -/
def showsTitle (dropSolutions : Bool) : Parent → Bool
  | .solution _ _ => !dropSolutions
  | p => .admonitionTitle ∈ p.ownParts

theorem exists_mem_onlyLast {ns : List Node} {P : Node → Prop} :
    (∃ n ∈ onlyLast q ns, P n) ↔ (∃ n ∈ ns, partOf q n = none ∧ P n) ∨
      ∃ cs, lastOf (partOf q) ns = some cs ∧ P (.parent q cs) := by
  simp only [onlyLast, List.mem_append, List.mem_filter, Option.isNone_iff_eq_none,
    Option.mem_toList, Option.map_eq_some_iff, or_and_right, exists_or, and_assoc]
  refine or_congr_right ⟨?_, ?_⟩
  · rintro ⟨n, ⟨cs, hcs, rfl⟩, hn⟩
    exact ⟨cs, hcs, hn⟩
  · rintro ⟨cs, hcs, hn⟩
    exact ⟨_, ⟨cs, hcs, rfl⟩, hn⟩

theorem mem_of_lastOf {ns cs : List Node} (h : lastOf (partOf q) ns = some cs) :
    .parent q cs ∈ ns := by
  obtain ⟨n, hn, hncs⟩ := List.exists_of_findSome?_eq_some h
  exact partOf_eq_some.mp hncs ▸ List.mem_reverse.mp hn

theorem mem_of_mem_onlyLast {ns : List Node} {n : Node} (h : n ∈ onlyLast q ns) : n ∈ ns := by
  obtain ⟨m, hm, -, rfl⟩ | ⟨cs, hcs, rfl⟩ := exists_mem_onlyLast.mp ⟨n, h, rfl⟩
  · exact hm
  · exact mem_of_lastOf hcs

theorem mem_of_mem_kept {p : Parent} {cs : List Node} {c : Node} (h : c ∈ kept d p cs) :
    c ∈ cs := by
  unfold kept at h
  split at h
  · split at h
    · cases h
    · exact h
  · split at h
    · exact (List.mem_filter.mp h).1
    · exact mem_of_mem_onlyLast h
  · exact mem_of_mem_onlyLast (List.mem_filter.mp h).1
  · exact mem_of_mem_onlyLast h
  · exact h

theorem lateTitle_cons {c : Node} {cs : List Node} : LateTitle d (c :: cs) ↔
    if resultOf d c = [] then LateTitle d cs else ∃ title, .parent .admonitionTitle title ∈ cs := by
  have hcons : LateTitle d (c :: cs) ↔ ∃ before title after,
      cs = before ++ .parent .admonitionTitle title :: after ∧
        resultOf d c ++ degrade d before ≠ [] := by
    constructor
    · rintro ⟨_ | ⟨c', before⟩, title, after, heq, hne⟩
      · exact absurd (by rw [degrade]) hne
      · obtain ⟨rfl, rfl⟩ := List.cons.inj heq
        exact ⟨before, title, after, rfl, degrade_cons c before ▸ hne⟩
    · rintro ⟨before, title, after, rfl, hne⟩
      exact ⟨c :: before, title, after, rfl, (degrade_cons c before).symm ▸ hne⟩
  rw [hcons]
  split
  next hempty => simp [hempty, LateTitle]
  next hne =>
    constructor
    · rintro ⟨before, title, after, rfl, -⟩
      exact ⟨title, by simp⟩
    · rintro ⟨title, hmem⟩
      obtain ⟨before, after, rfl⟩ := List.append_of_mem hmem
      exact ⟨before, title, after, rfl, by simp [hne]⟩

theorem splitTitle_of_loose {ns : List Node} (h : Loose ns) (hne : ns ≠ []) (rest : List Node) :
    splitTitle (ns ++ rest) = (none, ns ++ rest) := by
  obtain ⟨n, ns, rfl⟩ := List.exists_cons_of_ne_nil hne
  unfold splitTitle
  split
  next heq =>
    obtain ⟨rfl, -⟩ := List.cons.inj heq
    exact absurd rfl h.head
  next => rfl

theorem has_lastOf_degrade {cs : List Node} (hloose : ∀ c ∈ cs, Loose (contentOf d c)) {r : Parent}
    (hr : r.isPart = true) (htitle : r ≠ .admonitionTitle) :
    Has q ((lastOf (partOf r) (degrade d cs)).getD []) ↔
      ∃ t, lastOf (partOf r) cs = some t ∧ Has q (degrade d t) := by
  rw [lastOf_degrade hloose hr htitle]
  cases lastOf (partOf r) cs <;> simp

section
variable (hq : q.isPart = true) {p : Parent} {cs : List Node}
  (hfits : ∀ c ∈ cs, c.fits p = true)

include hfits

/-- The children are no parts or parts that belong there. -/
theorem exists_child_iff {P : Node → Prop} : (∃ c ∈ cs, P c) ↔
    (∃ c ∈ cs, c.isPart = false ∧ P c) ∨
      ∃ r t, r ∈ p.ownParts ∧ .parent r t ∈ cs ∧ P (.parent r t) := by
  constructor
  · rintro ⟨c, hc, hP⟩
    cases hpart : c.isPart with
    | false => exact .inl ⟨c, hc, hpart, hP⟩
    | true =>
      cases c with
      | leaf l => cases hpart
      | parent r t => exact .inr ⟨r, t, mem_ownParts hfits hc hpart, hc, hP⟩
  · rintro (⟨c, hc, -, hP⟩ | ⟨r, t, -, hc, hP⟩)
    · exact ⟨c, hc, hP⟩
    · exact ⟨_, hc, hP⟩

/-- The same with only the last part of a kind. -/
theorem exists_mem_onlyLast_child {r : Parent} (hr : r.isPart = true) {P : Node → Prop} :
    (∃ c ∈ onlyLast r cs, P c) ↔ (∃ c ∈ cs, c.isPart = false ∧ P c) ∨
      (∃ r' t, r' ∈ p.ownParts ∧ .parent r' t ∈ cs ∧ r' ≠ r ∧ P (.parent r' t)) ∨
        ∃ t, lastOf (partOf r) cs = some t ∧ P (.parent r t) := by
  rw [exists_mem_onlyLast, exists_child_iff hfits, or_assoc]
  refine or_congr ?_ (or_congr_left ?_)
  · refine exists_congr fun c => and_congr_right fun _ => and_congr_right fun hpart => ?_
    simp [partOf_of_not_part hr hpart]
  · simp [partOf]

variable (hloose : ∀ c ∈ cs, Loose (contentOf d c))

include hq

theorem has_degrade_plain (hp : p.ownParts = []) :
    Has q (degrade d cs) ↔ ∃ c ∈ cs, Has q (contentOf d c) := by
  refine (has_degrade hq).trans (or_iff_right ?_)
  rintro ⟨t, ht⟩
  simpa [Node.isPart, hq] using isPart_eq_false hfits hp ht

include hloose

/-- A title is split off if nothing stays before it; another one stays itself. -/
theorem titleOrBodyHas_degrade (hp : p.ownParts = [.admonitionTitle]) :
    TitleOrBodyHas q (degrade d cs) ↔
      q = .admonitionTitle ∧ LateTitle d cs ∨ ∃ c ∈ cs, Has q (contentOf d c) := by
  induction cs with
  | nil => simp [TitleOrBodyHas, splitTitle, LateTitle, degrade]
  | cons c cs ih =>
    obtain ⟨hc, hcs⟩ := List.forall_mem_cons.mp hloose
    have hfit := (List.forall_mem_cons.mp hfits).2
    have hrest : Has q (degrade d cs) ↔
        (q = .admonitionTitle ∧ ∃ t, .parent .admonitionTitle t ∈ cs) ∨
          ∃ c ∈ cs, Has q (contentOf d c) := by
      refine (has_degrade hq).trans (or_congr_left ⟨?_, ?_⟩)
      · rintro ⟨t, ht⟩
        have hown := mem_ownParts hfit ht hq
        rw [hp, List.mem_singleton] at hown
        exact ⟨hown, t, hown ▸ ht⟩
      · rintro ⟨rfl, ht⟩
        exact ht
    rw [degrade_cons, lateTitle_cons]
    cases hpart : c.isPart with
    | false =>
      rw [contentOf_of_not_part hpart] at hc
      by_cases hempty : resultOf d c = []
      · simp [hempty, ih hfit hcs, contentOf_of_not_part hpart]
      · rw [TitleOrBodyHas, splitTitle_of_loose hc hempty]
        simp only [Option.getD_none, not_has_nil, false_or, has_append, hrest, if_neg hempty,
          List.mem_cons, exists_eq_or_imp, contentOf_of_not_part hpart]
        exact or_left_comm
    | true =>
      cases c with
      | leaf l => cases hpart
      | parent r t =>
        have hown := mem_ownParts hfits List.mem_cons_self hpart
        rw [hp, List.mem_singleton] at hown
        subst hown
        have hresult := resultOf_part (d := d) (p := .admonitionTitle) rfl t
        have hcontent := contentOf_part (d := d) (p := .admonitionTitle) rfl t
        simp only [hresult, hcontent, TitleOrBodyHas, splitTitle, List.singleton_append,
          Option.getD_some, has_inlineContent hq, hrest, List.mem_cons, exists_eq_or_imp,
          List.cons_ne_nil, if_false]
        exact or_left_comm

theorem has_container_degrade (hp : p.ownParts = [.caption, .legend])
    (kind enumerator : Option String) : Has q (container kind enumerator (degrade d cs)) ↔
      ∃ c ∈ if kind = some "code" then cs.filter fun c => !c.isPart else onlyLast .caption cs,
        Has q (contentOf d c) := by
  have hlegends : Has q ((degrade d cs).filterMap legend?).flatten ↔
      ∃ t, .parent .legend t ∈ cs ∧ Has q (degrade d t) := by
    unfold legend?
    rw [filterMap_degrade hloose rfl (by decide), ← List.flatMap_def, has_flatMap]
    simp [List.mem_filterMap, partOf_eq_some]
  have hcaption : Has q ((lastOf caption? (degrade d cs)).getD []) ↔
      ∃ t, lastOf (partOf .caption) cs = some t ∧ Has q (degrade d t) :=
    has_lastOf_degrade hloose rfl (by decide)
  rw [has_container hq, containerRest_degrade hfits hloose hp, has_degrade_filter hq, hlegends,
    hcaption]
  split
  next hcode => simp [hcode, and_assoc]
  next hcode =>
    rw [exists_mem_onlyLast_child hfits rfl, hp]
    have hlegend := contentOf_part (d := d) (p := .legend) rfl
    have hlast := contentOf_part (d := d) (p := .caption) rfl
    simp only [hlast]
    simp [hcode, hlegend, or_comm]

theorem has_card_degrade (hp : p.ownParts = [.cardTitle, .header, .footer]) (url : Option String) :
    Has q (card url (degrade d cs)) ↔
      ∃ c ∈ (onlyLast .cardTitle cs).filter fun c => !isCardMargin c, Has q (contentOf d c) := by
  have htitle : Has q ((lastOf cardTitle? (degrade d cs)).getD []) ↔
      ∃ t, lastOf (partOf .cardTitle) cs = some t ∧ Has q (degrade d t) :=
    has_lastOf_degrade hloose rfl (by decide)
  rw [has_card hq, cardBody_degrade hfits hloose hp, has_degrade_filter hq, htitle]
  simp only [List.mem_filter, and_assoc]
  rw [exists_mem_onlyLast_child hfits rfl, hp]
  have hlast := contentOf_part (d := d) (p := .cardTitle) rfl
  have hmargin : ∀ c : Node, c.isPart = false → isCardMargin c = false := by
    intro c hc
    unfold isCardMargin
    split <;> first | rfl | cases hc
  have hrest : (∃ c ∈ cs, c.isPart = false ∧ (!isCardMargin c) = true ∧ Has q (contentOf d c)) ↔
      ∃ c ∈ cs, c.isPart = false ∧ Has q (contentOf d c) := by
    refine exists_congr fun c => and_congr_right fun _ => and_congr_right fun hc => ?_
    simp [hmargin c hc]
  simp only [hrest, hlast]
  simp [isCardMargin, or_comm]

theorem has_details_degrade (hp : p.ownParts = [.summary]) :
    Has q [details (degrade d cs)] ↔ ∃ c ∈ onlyLast .summary cs, Has q (contentOf d c) := by
  have hsummary : Has q ((lastOf summary? (degrade d cs)).getD []) ↔
      ∃ t, lastOf (partOf .summary) cs = some t ∧ Has q (degrade d t) :=
    has_lastOf_degrade hloose rfl (by decide)
  rw [has_details hq, detailsBody_degrade hfits hloose hp, has_degrade_filter hq, hsummary,
    exists_mem_onlyLast_child hfits rfl, hp]
  have hlast := contentOf_part (d := d) (p := .summary) rfl
  simp only [hlast]
  simp [or_comm]

theorem has_degradeParent (hpart : p.isPart = false) :
    Has q (degradeParent d p (degrade d cs)) ↔
      (q = .admonitionTitle ∧ showsTitle d p = true ∧ LateTitle d cs) ∨
        ∃ c ∈ kept d p cs, Has q (contentOf d c) := by
  have hplain : ∀ {r : Parent}, r.ownParts = [] → (∀ c ∈ cs, c.fits r = true) →
      (Has q (degrade d cs) ↔ (q = .admonitionTitle ∧ false = true ∧ LateTitle d cs) ∨
        ∃ c ∈ cs, Has q (contentOf d c)) := fun hr hfits => by
    simpa using has_degrade_plain hq hfits hr
  by_cases hmyst : p.isMystOnly = true
  · cases p with
    | admonition =>
      have htitle := titleOrBodyHas_degrade hq hfits hloose rfl
      simpa [degradeParent, has_admonition hq, showsTitle, Parent.ownParts, kept] using htitle
    | aside =>
      have htitle := titleOrBodyHas_degrade hq hfits hloose rfl
      simpa [degradeParent, has_aside hq, showsTitle, Parent.ownParts, kept] using htitle
    | exercise | proof =>
      have htitle := titleOrBodyHas_degrade hq hfits hloose rfl
      simpa [degradeParent, has_headed hq, showsTitle, Parent.ownParts, kept] using htitle
    | solution =>
      cases d with
      | true => simp [degradeParent, showsTitle, kept]
      | false =>
        have htitle := titleOrBodyHas_degrade hq hfits hloose rfl
        simpa [degradeParent, has_headed hq, showsTitle, kept] using htitle
    | container kind _ enumerator =>
      have hcontainer := has_container_degrade hq hfits hloose rfl kind enumerator
      simpa [degradeParent, showsTitle, Parent.ownParts, kept] using hcontainer
    | card url =>
      have hcard := has_card_degrade hq hfits hloose rfl url
      simpa [degradeParent, showsTitle, Parent.ownParts, kept] using hcard
    | details =>
      have hdetails := has_details_degrade hq hfits hloose rfl
      simpa [degradeParent, showsTitle, Parent.ownParts, kept] using hdetails
    | tabSet | grid | inclusion => exact hplain rfl hfits
    | tabItem title =>
      have hheader : ¬ Has q (if title.isEmpty then [] else [boldParagraph [.text title]]) := by
        split <;> simp [has_boldParagraph hq]
      rw [degradeParent, has_append]
      exact (or_iff_right hheader).trans (hplain rfl hfits)
    | directive name _ _ value =>
      refine Iff.trans ?_ (hplain rfl hfits)
      cases degrade d cs with
      | nil => cases value <;> simp [degradeParent, directive]
      | cons => rfl
    | role _ value =>
      refine Iff.trans ?_ (hplain rfl hfits)
      cases degrade d cs with
      | nil => cases value <;> simp [degradeParent, role]
      | cons => rfl
    | _ => cases hmyst
  · have hown : p.ownParts = [] ∧ showsTitle d p = false ∧ kept d p cs = cs := by
      cases p <;> first | exact ⟨rfl, rfl, rfl⟩ | exact absurd rfl hmyst
    rw [degradeParent_eq_self (by simpa using hmyst), has_parent_of_not_part hq hpart,
      hown.2.1, hown.2.2]
    exact hplain hown.1 hfits

theorem has_contentOf_step : Has q (contentOf d (.parent p cs)) ↔
    (q = .admonitionTitle ∧ showsTitle d p = true ∧ LateTitle d cs) ∨
      ∃ c ∈ kept d p cs, Has q (contentOf d c) := by
  cases hpart : p.isPart with
  | false =>
    rw [contentOf_of_not_part (n := .parent p cs) hpart, resultOf, degradeNode,
      has_map_withoutTarget hq]
    exact has_degradeParent hq hfits hloose hpart
  | true =>
    have hown : p.ownParts = [] := by cases p <;> first | rfl | cases hpart
    have hkept : showsTitle d p = false ∧ kept d p cs = cs := by
      cases p <;> first | exact ⟨rfl, rfl⟩ | cases hpart
    rw [contentOf_part hpart, has_degrade_plain hq hfits hown, hkept.1, hkept.2]
    simp

end

/-- A title that stays: it is the child of a parent with a place in the result. -/
def HasLateTitle (dropSolutions : Bool) (ns : List Node) : Prop :=
  ∃ p cs, Reaches dropSolutions (.parent p cs) ns ∧ showsTitle dropSolutions p = true ∧
    LateTitle dropSolutions cs

theorem hasLateTitle_iff {ns : List Node} :
    HasLateTitle d ns ↔ ∃ n ∈ ns, HasLateTitle d [n] := by
  constructor
  · rintro ⟨p, cs, hreaches, htitle⟩
    cases hreaches with
    | here hmem => exact ⟨_, hmem, p, cs, .here List.mem_cons_self, htitle⟩
    | inside hmem hbelow => exact ⟨_, hmem, p, cs, .inside List.mem_cons_self hbelow, htitle⟩
  · rintro ⟨n, hn, p, cs, hreaches, htitle⟩
    refine ⟨p, cs, ?_, htitle⟩
    cases hreaches with
    | here hmem => exact .here (List.mem_singleton.mp hmem ▸ hn)
    | inside hmem hbelow => exact .inside (List.mem_singleton.mp hmem ▸ hn) hbelow

theorem hasLateTitle_parent {p : Parent} {cs : List Node} : HasLateTitle d [.parent p cs] ↔
    (showsTitle d p = true ∧ LateTitle d cs) ∨ HasLateTitle d (kept d p cs) := by
  constructor
  · rintro ⟨p', cs', hreaches, htitle⟩
    cases hreaches with
    | here hmem =>
      obtain ⟨rfl, rfl⟩ := Node.parent.inj (List.mem_singleton.mp hmem)
      exact .inl htitle
    | inside hmem hbelow =>
      obtain ⟨rfl, rfl⟩ := Node.parent.inj (List.mem_singleton.mp hmem)
      exact .inr ⟨p', cs', hbelow, htitle⟩
  · rintro (htitle | ⟨p', cs', hreaches, htitle⟩)
    · exact ⟨p, cs, .here List.mem_cons_self, htitle⟩
    · exact ⟨p', cs', .inside List.mem_cons_self hreaches, htitle⟩

theorem not_hasLateTitle_leaf {l : Leaf} : ¬ HasLateTitle d [.leaf l] := by
  rintro ⟨p, cs, hreaches, -⟩
  cases hreaches with
  | here hmem => cases List.mem_singleton.mp hmem
  | inside hmem => cases List.mem_singleton.mp hmem

mutual

theorem has_contentOf_iff (hq : q.isPart = true) : (n : Node) →
    n.Everywhere (·.childrenFit = true) →
    (Has q (contentOf d n) ↔ q = .admonitionTitle ∧ HasLateTitle d [n])
  | .leaf l, _ => by
    have hleaf : ¬ Has q (contentOf d (.leaf l)) := by
      rw [contentOf, resultOf, has_map_withoutTarget hq, degradeNode]
      cases l <;> simp [degradeLeaf, Node.html]
    exact iff_of_false hleaf fun h => not_hasLateTitle_leaf h.2
  | .parent p cs, h => by
    obtain ⟨hp, hcs⟩ := everywhere_parent.mp h
    have hchildren : (∃ c ∈ kept d p cs, Has q (contentOf d c)) ↔
        q = .admonitionTitle ∧ HasLateTitle d (kept d p cs) := by
      rw [hasLateTitle_iff, ← exists_and_left]
      refine exists_congr fun c => ?_
      rw [and_left_comm]
      exact and_congr_right fun hc => has_contentOf_all hq cs hcs c (mem_of_mem_kept hc)
    rw [has_contentOf_step hq (List.all_eq_true.mp hp) (loose_contentOf_all cs hcs), hchildren,
      hasLateTitle_parent, ← and_or_left]

theorem has_contentOf_all (hq : q.isPart = true) : (ns : List Node) →
    (∀ n ∈ ns, n.Everywhere (·.childrenFit = true)) →
    ∀ n ∈ ns, (Has q (contentOf d n) ↔ q = .admonitionTitle ∧ HasLateTitle d [n])
  | [], _ => by simp
  | n :: ns, h => by
    obtain ⟨hn, hns⟩ := List.forall_mem_cons.mp h
    exact List.forall_mem_cons.mpr ⟨has_contentOf_iff hq n hn, has_contentOf_all hq ns hns⟩

end

/-- Where every part is in its place, none is left but titles, and these exactly if a parent that
makes a header of its title has one behind something that leaves content. -/
theorem part_degrade_iff (dropSolutions : Bool) {ns : List Node} (h : PartsInPlace ns) {q : Parent}
    (hq : q.isPart = true) :
    (∃ cs, .parent q cs ∈ preorderAll (degrade dropSolutions ns)) ↔
      q = .admonitionTitle ∧ ∃ p cs, Reaches dropSolutions (.parent p cs) ns ∧
        showsTitle dropSolutions p = true ∧ LateTitle dropSolutions cs := by
  have hbelow := forall_mem_preorderAll.mp h.below
  have htop : ¬ ∃ cs, Node.parent q cs ∈ ns := by
    rintro ⟨cs, hcs⟩
    have hpart := h.top _ hcs
    rw [Node.isPart, hq] at hpart
    cases hpart
  have hcontent : (∃ n ∈ ns, Has q (contentOf dropSolutions n)) ↔
      q = .admonitionTitle ∧ HasLateTitle dropSolutions ns := by
    rw [hasLateTitle_iff, ← exists_and_left]
    refine exists_congr fun n => ?_
    rw [and_left_comm]
    exact and_congr_right fun hn => has_contentOf_iff hq n (hbelow n hn)
  exact ((has_degrade hq).trans (or_iff_right htop)).trans hcontent

/-- A theorem in the legend of a figure, with its name behind its first sentence. -/
theorem part_degrade_legend :
    let proof : Node := .parent (.proof none {} none)
      [.paragraph [.text "So."], .parent .admonitionTitle [.text "Euclid"]]
    let figure : Node := .parent (.container (some "figure") {} none none)
      [.parent .caption [.text "first"], .parent .caption [.text "second"], .parent .legend [proof]]
    PartsInPlace [figure] ∧
      (∃ cs, .parent .admonitionTitle cs ∈ preorderAll (degrade false [figure])) ∧
      ¬ ∃ cs, .parent .caption cs ∈ preorderAll (degrade false [figure]) := by
  intro proof figure
  have hplaced : PartsInPlace [figure] := ⟨by decide, by decide⟩
  have htitle : LateTitle false proof.children :=
    ⟨[.paragraph [.text "So."]], [.text "Euclid"], [], rfl, by decide⟩
  have hlegend : Node.parent .legend [proof] ∈
      kept false (.container (some "figure") {} none none) figure.children := by decide
  have hreaches : Reaches false proof [figure] :=
    .inside List.mem_cons_self (.inside hlegend (.here List.mem_cons_self))
  refine ⟨hplaced, (part_degrade_iff false hplaced rfl).mpr ⟨rfl, _, _, hreaches, rfl, htitle⟩, ?_⟩
  exact fun h => absurd ((part_degrade_iff false hplaced rfl).mp h).1 (by decide)

/-- A title behind the body stays a title. -/
theorem degrade_lateTitle :
    let note : Node := .parent (.admonition (some "note") none)
      [.paragraph [.text "body"], .parent .admonitionTitle [.text "Title"]]
    PartsInPlace [note] ∧
      degrade false [note] = [.blockquote [.paragraph [.strong [.text "Note"]],
        .paragraph [.text "body"], .parent .admonitionTitle [.text "Title"]]] := by
  intro note
  exact ⟨⟨by decide, by decide⟩, by decide⟩

end MystNotebook.CommonMark
