import MystNotebook.Proofs.PartsAtDepth

/-! Parts in their places. What a node gives way to never starts with a part, and the only parts
among it are titles; so a parent finds its own parts among what its children have become, in their
order, and nothing else that looks like them. -/
namespace MystNotebook.CommonMark
open Node

/-! What the nodes have become. -/

/-- What a node gives way to among its siblings. -/
def resultOf (dropSolutions : Bool) (n : Node) : List Node :=
  (degradeNode dropSolutions n).map Node.withoutTarget

/-- The same, or the children of a part, which are what is left of it when it is taken apart. -/
def contentOf (dropSolutions : Bool) : Node → List Node
  | .leaf l => resultOf dropSolutions (.leaf l)
  | .parent p cs =>
    if p.isPart then degrade dropSolutions cs else resultOf dropSolutions (.parent p cs)

variable {d : Bool} {q : Parent}

theorem degrade_eq_resultOf (ns : List Node) : degrade d ns = ns.flatMap (resultOf d) :=
  degrade_eq_flatMap d ns

theorem degrade_cons (n : Node) (ns : List Node) :
    degrade d (n :: ns) = resultOf d n ++ degrade d ns := by
  rw [degrade, resultOf]

theorem resultOf_part {p : Parent} (hp : p.isPart = true) (cs : List Node) :
    resultOf d (.parent p cs) = [.parent p (degrade d cs)] := by
  cases p <;> first | rfl | cases hp

theorem contentOf_part {p : Parent} (hp : p.isPart = true) (cs : List Node) :
    contentOf d (.parent p cs) = degrade d cs := if_pos hp

theorem contentOf_of_not_part {n : Node} (h : n.isPart = false) : contentOf d n = resultOf d n := by
  cases n with
  | leaf l => rfl
  | parent p cs => exact if_neg (Bool.eq_false_iff.mp h)

theorem has_degrade (hq : q.isPart = true) {ns : List Node} :
    Has q (degrade d ns) ↔ (∃ cs, .parent q cs ∈ ns) ∨ ∃ n ∈ ns, Has q (contentOf d n) := by
  have hnode : ∀ n, Has q (resultOf d n) ↔ (∃ cs, n = .parent q cs) ∨ Has q (contentOf d n) := by
    intro n
    cases hn : n.isPart with
    | false =>
      rw [contentOf_of_not_part hn]
      refine (or_iff_right ?_).symm
      rintro ⟨cs, rfl⟩
      simp [Node.isPart, hq] at hn
    | true =>
      cases n with
      | leaf l => cases hn
      | parent p cs =>
        rw [resultOf_part hn, contentOf_part hn, has_parent]
        simp
  rw [degrade_eq_resultOf, has_flatMap]
  simp only [hnode, and_or_left, exists_or]
  refine or_congr_left ⟨?_, ?_⟩
  · rintro ⟨n, hn, cs, rfl⟩
    exact ⟨cs, hn⟩
  · rintro ⟨cs, hcs⟩
    exact ⟨_, hcs, cs, rfl⟩

/-! Nodes that are no parts. -/

/-- Of the nodes themselves only titles are parts, and the first of them is none. -/
structure Loose (ns : List Node) : Prop where
  parts : ∀ {p cs}, .parent p cs ∈ ns → p.isPart = true → p = .admonitionTitle
  head : ∀ {cs rest}, ns ≠ .parent .admonitionTitle cs :: rest

theorem loose_nil : Loose [] := ⟨by simp, by simp⟩

theorem Loose.append {ms ns : List Node} (hm : Loose ms) (hn : Loose ns) : Loose (ms ++ ns) := by
  constructor
  · intro p cs hmem hp
    rcases List.mem_append.mp hmem with hmem | hmem
    · exact hm.parts hmem hp
    · exact hn.parts hmem hp
  · intro cs rest heq
    rcases ms with _ | ⟨m, ms⟩
    · exact hn.head heq
    · obtain ⟨rfl, -⟩ := List.cons.inj heq
      exact hm.head rfl

theorem loose_cons {n : Node} {ns : List Node} (hn : n.isPart = false)
    (hns : ∀ {p cs}, .parent p cs ∈ ns → p.isPart = true → p = .admonitionTitle) :
    Loose (n :: ns) := by
  constructor
  · intro p cs hmem hp
    rcases List.mem_cons.mp hmem with rfl | hmem
    · simp [Node.isPart, hp] at hn
    · exact hns hmem hp
  · rintro cs rest heq
    obtain ⟨rfl, -⟩ := List.cons.inj heq
    cases hn

theorem loose_singleton {n : Node} (hn : n.isPart = false) : Loose [n] :=
  loose_cons hn (by simp)

theorem loose_flatMap {α : Type} {f : α → List Node} {xs : List α} (h : ∀ x ∈ xs, Loose (f x)) :
    Loose (xs.flatMap f) := by
  induction xs with
  | nil => exact loose_nil
  | cons x xs ih =>
    obtain ⟨hx, hxs⟩ := List.forall_mem_cons.mp h
    exact hx.append (ih hxs)

theorem loose_map {g : Node → Node} (hg : ∀ {n p cs}, g n = .parent p cs → p.isPart = true →
    ∃ ds, n = .parent p ds) {ns : List Node} (h : Loose ns) : Loose (ns.map g) := by
  constructor
  · intro p cs hmem hp
    obtain ⟨n, hn, heq⟩ := List.mem_map.mp hmem
    obtain ⟨ds, rfl⟩ := hg heq hp
    exact h.parts hn hp
  · intro cs rest heq
    rcases ns with _ | ⟨n, ns⟩
    · cases heq
    · obtain ⟨ds, rfl⟩ := hg (List.cons.inj heq).1 rfl
      exact h.head rfl

theorem loose_map_withoutTarget {ns : List Node} (h : Loose ns) :
    Loose (ns.map Node.withoutTarget) := by
  refine loose_map (fun {n p cs} heq hp => ?_) h
  cases n with
  | leaf l => cases heq
  | parent p' ds =>
    obtain ⟨hpart, -⟩ := Node.parent.inj heq
    exact ⟨ds, by rw [(withoutTarget_eq_iff hp).mp hpart]⟩

theorem loose_map_described (caption : String) {ns : List Node} (h : Loose ns) :
    Loose (ns.map (described caption)) := by
  refine loose_map (fun {n p cs} heq hp => ?_) h
  unfold described at heq
  split at heq
  · split at heq <;> cases heq
  · exact ⟨cs, heq⟩

theorem loose_toList {caption : Option (List Node)} {line : List Node → Node}
    (h : ∀ ns, (line ns).isPart = false) : Loose (caption.map line).toList := by
  cases caption with
  | none => exact loose_nil
  | some ns => exact loose_singleton (h ns)

/-! Children in their places. -/

theorem partOf_of_not_part (hq : q.isPart = true) {c : Node} (h : c.isPart = false) :
    partOf q c = none := by
  refine Option.eq_none_iff_forall_ne_some.mpr fun t ht => ?_
  rw [partOf_eq_some.mp ht, Node.isPart, hq] at h
  cases h

theorem lastOf_eq_getLast? (q : Parent) (ns : List Node) :
    lastOf (partOf q) ns = (ns.filterMap (partOf q)).getLast? := by
  rw [lastOf, ← List.head?_filterMap, List.filterMap_reverse, List.head?_reverse]

section
variable {cs : List Node} (hloose : ∀ c ∈ cs, Loose (contentOf d c))

include hloose

theorem loose_resultOf {c : Node} (hc : c ∈ cs) (hpart : c.isPart = false) :
    Loose (resultOf d c) := by
  rw [← contentOf_of_not_part hpart]
  exact hloose c hc

/-- The parts of a kind stay in their order. -/
theorem filterMap_degrade {q : Parent} (hq : q.isPart = true) (htitle : q ≠ .admonitionTitle) :
    (degrade d cs).filterMap (partOf q) = (cs.filterMap (partOf q)).map (degrade d) := by
  induction cs with
  | nil => simp [degrade]
  | cons c cs ih =>
    have hcs := ih fun c hc => hloose c (List.mem_cons_of_mem _ hc)
    rw [degrade_cons, List.filterMap_append, hcs]
    cases hc : c.isPart with
    | false =>
      have hresult := loose_resultOf hloose List.mem_cons_self hc
      have hnone : (resultOf d c).filterMap (partOf q) = [] := by
        refine List.filterMap_eq_nil_iff.mpr fun n hn => ?_
        refine Option.eq_none_iff_forall_ne_some.mpr fun t ht => ?_
        exact htitle (hresult.parts (partOf_eq_some.mp ht ▸ hn) hq)
      rw [hnone, List.filterMap_cons_none (partOf_of_not_part hq hc), List.nil_append]
    | true =>
      cases c with
      | leaf l => cases hc
      | parent p t =>
        rw [resultOf_part hc]
        by_cases hp : p = q <;> simp [partOf, hp]

theorem lastOf_degrade {q : Parent} (hq : q.isPart = true) (htitle : q ≠ .admonitionTitle) :
    lastOf (partOf q) (degrade d cs) = (lastOf (partOf q) cs).map (degrade d) := by
  rw [lastOf_eq_getLast?, lastOf_eq_getLast?, filterMap_degrade hloose hq htitle, List.getLast?_map]

theorem loose_degrade_filter : Loose (degrade d (cs.filter fun c => !c.isPart)) := by
  rw [degrade_eq_resultOf]
  refine loose_flatMap fun c hc => ?_
  obtain ⟨hc, hpart⟩ := List.mem_filter.mp hc
  exact loose_resultOf hloose hc (by simpa using hpart)

end

theorem has_degrade_filter (hq : q.isPart = true) {cs : List Node} :
    Has q (degrade d (cs.filter fun c => !c.isPart)) ↔
      ∃ c ∈ cs, c.isPart = false ∧ Has q (contentOf d c) := by
  rw [has_degrade hq]
  simp [Node.isPart, hq, and_assoc]

section
variable {p : Parent} {cs : List Node} (hfits : ∀ c ∈ cs, c.fits p = true)

include hfits

theorem mem_ownParts {r : Parent} {t : List Node} (h : .parent r t ∈ cs) (hr : r.isPart = true) :
    r ∈ p.ownParts := by
  simpa [Node.fits, hr] using hfits _ h

theorem isPart_eq_false (hp : p.ownParts = []) {c : Node} (hc : c ∈ cs) : c.isPart = false := by
  cases c with
  | leaf l => rfl
  | parent r t =>
    refine Bool.eq_false_iff.mpr fun hr => ?_
    simpa [hp] using mem_ownParts hfits hc hr

theorem filter_not_part (hp : p.ownParts = []) : cs.filter (fun c => !c.isPart) = cs :=
  List.filter_eq_self.mpr fun c hc => by simp [isPart_eq_false hfits hp hc]

variable (hloose : ∀ c ∈ cs, Loose (contentOf d c))

include hloose

/-- Where no parts belong, the children stay what they have become. -/
theorem loose_degrade (hp : p.ownParts = []) : Loose (degrade d cs) := by
  rw [← filter_not_part hfits hp]
  exact loose_degrade_filter hloose

theorem parts_degrade {r : Parent} {t : List Node} (h : .parent r t ∈ degrade d cs)
    (hr : r.isPart = true) : r = .admonitionTitle ∨ r ∈ p.ownParts := by
  rw [degrade_eq_resultOf] at h
  obtain ⟨c, hc, h⟩ := List.mem_flatMap.mp h
  cases hpart : c.isPart with
  | false => exact .inl ((loose_resultOf hloose hc hpart).parts h hr)
  | true =>
    cases c with
    | leaf l => cases hpart
    | parent r' t' =>
      rw [resultOf_part hpart, List.mem_singleton] at h
      obtain ⟨rfl, -⟩ := Node.parent.inj h
      exact .inr (mem_ownParts hfits hc hr)

/-- What the children have become that are no parts. -/
theorem filter_degrade {keep : Node → Bool}
    (hparts : ∀ r ∈ p.ownParts, ∀ t, keep (.parent r t) = false)
    (hleaf : ∀ l, keep (.leaf l) = true)
    (hrest : ∀ r t, (r.isPart = true → r = .admonitionTitle) → keep (.parent r t) = true) :
    (degrade d cs).filter keep = degrade d (cs.filter fun c => !c.isPart) := by
  induction cs with
  | nil => simp [degrade]
  | cons c cs ih =>
    obtain ⟨hc, hcs⟩ := List.forall_mem_cons.mp hloose
    have hrests := ih (List.forall_mem_cons.mp hfits).2 hcs
    rw [degrade_cons, List.filter_append, hrests]
    cases hpart : c.isPart with
    | false =>
      rw [contentOf_of_not_part hpart] at hc
      have hall : (resultOf d c).filter keep = resultOf d c := by
        refine List.filter_eq_self.mpr fun n hn => ?_
        cases n with
        | leaf l => exact hleaf l
        | parent r t => exact hrest r t (hc.parts hn)
      rw [hall, List.filter_cons_of_pos (by simp [hpart]), degrade_cons]
    | true =>
      rw [List.filter_cons_of_neg (by simp [hpart])]
      cases c with
      | leaf l => cases hpart
      | parent r t =>
        have hnone := hparts r (mem_ownParts hfits List.mem_cons_self hpart) (degrade d t)
        rw [resultOf_part hpart, List.filter_cons_of_neg (by simp [hnone])]
        rfl

theorem containerRest_degrade (hp : p.ownParts = [.caption, .legend]) :
    (degrade d cs).filter (fun n => (caption? n).isNone && (legend? n).isNone) =
      degrade d (cs.filter fun c => !c.isPart) := by
  refine filter_degrade hfits hloose ?_ (fun l => rfl) fun r t h => ?_
  · simp [hp, caption?, legend?, partOf]
  · cases r <;> first | rfl | exact absurd (h rfl) (by decide)

theorem cardBody_degrade (hp : p.ownParts = [.cardTitle, .header, .footer]) :
    (degrade d cs).filter (fun n => (cardTitle? n).isNone && !isCardMargin n) =
      degrade d (cs.filter fun c => !c.isPart) := by
  refine filter_degrade hfits hloose ?_ (fun l => rfl) fun r t h => ?_
  · simp [hp, cardTitle?, partOf, isCardMargin]
  · cases r <;> first | rfl | exact absurd (h rfl) (by decide)

theorem detailsBody_degrade (hp : p.ownParts = [.summary]) :
    (degrade d cs).filter (fun n => (summary? n).isNone) =
      degrade d (cs.filter fun c => !c.isPart) := by
  refine filter_degrade hfits hloose ?_ (fun l => rfl) fun r t h => ?_
  · simp [hp, summary?, partOf]
  · cases r <;> first | rfl | exact absurd (h rfl) (by decide)

/-! A parent leaves no part at the start, and none but titles behind it. -/

theorem loose_headed (hp : p.ownParts = [.admonitionTitle]) (name : String)
    (enumerator : Option String) : Loose (headed name enumerator (degrade d cs)) := by
  simp only [headed]
  refine loose_cons rfl fun {r t} h hr => ?_
  have hmem : Node.parent r t ∈ degrade d cs := by
    unfold splitTitle at h
    split at h
    next heq => exact heq ▸ List.mem_cons_of_mem _ h
    next => exact h
  simpa [hp] using parts_degrade hfits hloose hmem hr

theorem loose_container (hp : p.ownParts = [.caption, .legend])
    (kind enumerator : Option String) : Loose (container kind enumerator (degrade d cs)) := by
  have hrest := loose_degrade_filter hloose
  have hlegend : Loose ((degrade d cs).filterMap legend?).flatten := by
    unfold legend?
    rw [filterMap_degrade hloose rfl (by decide), ← List.flatMap_def]
    refine loose_flatMap fun t ht => ?_
    obtain ⟨c, hc, hct⟩ := List.mem_filterMap.mp ht
    obtain rfl := partOf_eq_some.mp hct
    exact contentOf_part (p := .legend) rfl t ▸ hloose _ hc
  simp only [container, containerRest_degrade hfits hloose hp]
  split
  next => exact ((loose_map_described _ hrest).append (loose_toList fun ns => rfl)).append hlegend
  next => exact ((loose_toList fun ns => rfl).append hrest).append hlegend
  next => exact hrest
  next => exact (hrest.append (loose_toList fun ns => rfl)).append hlegend

theorem loose_card (hp : p.ownParts = [.cardTitle, .header, .footer]) (url : Option String) :
    Loose (card url (degrade d cs)) := by
  simp only [card, cardBody_degrade hfits hloose hp]
  exact (loose_toList fun ns => rfl).append (loose_degrade_filter hloose)

theorem loose_degradeParent (hp : p.isPart = false) :
    Loose (degradeParent d p (degrade d cs)) := by
  by_cases hmyst : p.isMystOnly = true
  · cases p with
    | admonition | details | aside => exact loose_singleton rfl
    | container kind _ enumerator => exact loose_container hfits hloose rfl kind enumerator
    | exercise | proof => exact loose_headed hfits hloose rfl _ _
    | solution =>
      cases d with
      | true => exact loose_nil
      | false => exact loose_headed hfits hloose rfl _ _
    | tabSet | grid | inclusion => exact loose_degrade hfits hloose rfl
    | tabItem title =>
      refine Loose.append ?_ (loose_degrade hfits hloose rfl)
      split
      · exact loose_nil
      · exact loose_singleton rfl
    | card url => exact loose_card hfits hloose rfl url
    | directive name _ _ value =>
      simp only [degradeParent, directive]
      split
      · exact loose_degrade hfits hloose rfl
      · split
        · exact loose_singleton rfl
        · exact loose_nil
    | role _ value =>
      simp only [degradeParent, role]
      split
      · exact loose_degrade hfits hloose rfl
      · cases value with
        | none => exact loose_nil
        | some v => exact loose_singleton rfl
    | _ => cases hmyst
  · rw [degradeParent_eq_self (by simpa using hmyst)]
    exact loose_singleton hp

theorem loose_contentOf_parent : Loose (contentOf d (.parent p cs)) := by
  cases hp : p.isPart with
  | true =>
    rw [contentOf_part hp]
    refine loose_degrade hfits hloose ?_
    cases p <;> first | rfl | cases hp
  | false =>
    rw [contentOf_of_not_part (n := .parent p cs) hp, resultOf, degradeNode]
    exact loose_map_withoutTarget (loose_degradeParent hfits hloose hp)

end

theorem loose_degradeLeaf (l : Leaf) : Loose (degradeLeaf l) := by
  cases l <;> first | exact loose_nil | exact loose_singleton rfl

mutual

theorem loose_contentOf : (n : Node) → n.Everywhere (·.childrenFit = true) →
    Loose (contentOf d n)
  | .leaf l, _ => loose_map_withoutTarget (loose_degradeLeaf l)
  | .parent p cs, h => by
    obtain ⟨hp, hcs⟩ := everywhere_parent.mp h
    exact loose_contentOf_parent (List.all_eq_true.mp hp) (loose_contentOf_all cs hcs)

theorem loose_contentOf_all : (ns : List Node) → (∀ n ∈ ns, n.Everywhere (·.childrenFit = true)) →
    ∀ n ∈ ns, Loose (contentOf d n)
  | [], _ => by simp
  | n :: ns, h => by
    obtain ⟨hn, hns⟩ := List.forall_mem_cons.mp h
    exact List.forall_mem_cons.mpr ⟨loose_contentOf n hn, loose_contentOf_all ns hns⟩

end

end MystNotebook.CommonMark
