import MystNotebook.Proofs.NodeTallies
import MystNotebook.Proofs.NormalForm

/-! Prose through degrading. Each rewriting sorts the children into titles, captions, legends and
body and puts them together again, so no text is lost but those of the parts that have no place in
the result: the margins of a card, the caption and the legend of code, and all captions and titles
but the last. -/
namespace MystNotebook.CommonMark

def textValue? : Node → Option String
  | .leaf (.text value) => some value
  | _ => none

/-- How many texts among the nodes and below them have the value. -/
def occurrences (v : String) (ns : List Node) : Nat :=
  ((Node.preorderAll ns).filterMap textValue?).count v

section
variable {v : String}

theorem occurrences_eq_tally (v : String) (ns : List Node) :
    occurrences v ns = tally (fun n => textValue? n == some v) ns :=
  List.count_filterMap

@[simp] theorem occurrences_nil : occurrences v [] = 0 := rfl

@[simp] theorem occurrences_append (ms ns : List Node) :
    occurrences v (ms ++ ns) = occurrences v ms + occurrences v ns := by
  simp only [occurrences_eq_tally, tally_append]

theorem occurrences_cons (n : Node) (ns : List Node) :
    occurrences v (n :: ns) = occurrences v [n] + occurrences v ns :=
  occurrences_append [n] ns

@[simp] theorem occurrences_parent (p : Parent) (cs : List Node) :
    occurrences v [.parent p cs] = occurrences v cs := by
  rw [occurrences_eq_tally, occurrences_eq_tally, tally_parent_of_false rfl]

@[simp] theorem occurrences_paragraph (cs : List Node) :
    occurrences v [.paragraph cs] = occurrences v cs := occurrences_parent _ cs

@[simp] theorem occurrences_emphasis (cs : List Node) :
    occurrences v [.emphasis cs] = occurrences v cs := occurrences_parent _ cs

@[simp] theorem occurrences_blockquote (cs : List Node) :
    occurrences v [.blockquote cs] = occurrences v cs := occurrences_parent _ cs

@[simp] theorem occurrences_boldParagraph (cs : List Node) :
    occurrences v [boldParagraph cs] = occurrences v cs := by
  rw [boldParagraph, occurrences_paragraph, Node.strong, occurrences_parent]

theorem occurrences_map {f : Node → Node} (h : ∀ n, occurrences v [f n] = occurrences v [n])
    (ns : List Node) : occurrences v (ns.map f) = occurrences v ns := by
  simp only [occurrences_eq_tally] at h ⊢
  exact tally_map h ns

theorem occurrences_map_withoutTarget (ns : List Node) :
    occurrences v (ns.map Node.withoutTarget) = occurrences v ns := by
  rw [occurrences_eq_tally, occurrences_eq_tally]
  refine tally_map_withoutTarget (fun n => ?_) ns
  cases n with
  | leaf l => cases l <;> rfl
  | parent p cs => rfl

/-! The parts of a rewriting. -/

theorem occurrences_unwrapped (n : Node) : occurrences v (unwrapped n) = occurrences v [n] := by
  rw [occurrences_eq_tally, occurrences_eq_tally, tally_unwrapped fun _ => rfl]

theorem occurrences_le_appendInline (out : List Node) (n : Node) :
    occurrences v out + occurrences v [n] ≤ occurrences v (appendInline out n) := by
  rw [← occurrences_unwrapped, appendInline]
  split
  · rw [occurrences_append]
  · rw [occurrences_append, occurrences_append]
    omega

/-- Spaces come in, and nothing goes. -/
theorem occurrences_le_inlineContent (ns : List Node) :
    occurrences v ns ≤ occurrences v (inlineContent ns) := by
  suffices h : ∀ out, occurrences v out + occurrences v ns ≤
      occurrences v (ns.foldl appendInline out) by
    simpa [inlineContent] using h []
  induction ns with
  | nil => exact fun out => le_refl _
  | cons n ns ih =>
    intro out
    have hfirst := occurrences_le_appendInline (v := v) out n
    have hrest := ih (appendInline out n)
    rw [occurrences_cons, List.foldl_cons]
    omega

theorem occurrences_le_splitTitle (ns default : List Node) :
    occurrences v ns ≤
      occurrences v ((splitTitle ns).1.getD default) + occurrences v (splitTitle ns).2 := by
  unfold splitTitle
  split
  next cs rest =>
    have htitle := occurrences_le_inlineContent (v := v) cs
    rw [occurrences_cons, occurrences_parent]
    exact Nat.add_le_add_right htitle _
  next => exact Nat.le_add_left _ _

theorem occurrences_bind_nonEmpty (title : Option (List Node)) :
    occurrences v ((title.bind nonEmpty).getD []) = occurrences v (title.getD []) := by
  rw [occurrences_eq_tally, occurrences_eq_tally, tally_bind_nonEmpty]

theorem occurrences_le_map {f : List Node → Node}
    (h : ∀ ns, occurrences v ns ≤ occurrences v [f ns]) (o : Option (List Node)) :
    occurrences v (o.getD []) ≤ occurrences v (o.map f).toList := by
  cases o with
  | none => exact le_refl _
  | some ns => exact h ns

/-- What is shown of the last part, with a default where there is nothing to show. -/
theorem occurrences_le_shown (part : Option (List Node)) (default : List Node) :
    occurrences v (part.getD []) ≤
      occurrences v ((part.bind fun ns => nonEmpty (inlineContent ns)).getD default) := by
  cases part with
  | none => exact Nat.zero_le _
  | some ns =>
    have hinline := occurrences_le_inlineContent (v := v) ns
    rw [Option.bind_some, nonEmpty]
    split
    next hempty =>
      rw [List.isEmpty_iff.mp hempty] at hinline
      exact hinline.trans (Nat.zero_le _)
    next => exact hinline

/-! One node. -/

theorem occurrences_le_headed (name : String) (enumerator : Option String) (cs : List Node) :
    occurrences v cs ≤ occurrences v (headed name enumerator cs) := by
  have hsplit := occurrences_le_splitTitle (v := v) cs []
  have htitle := occurrences_bind_nonEmpty (v := v) (splitTitle cs).1
  simp only [headed]
  rw [occurrences_cons, occurrences_boldParagraph, occurrences_append]
  split
  next title heq =>
    rw [heq, Option.getD_some] at htitle
    rw [occurrences_append, occurrences_append, htitle]
    omega
  next heq =>
    rw [heq, Option.getD_none, occurrences_nil] at htitle
    omega

theorem occurrences_le_admonition (kind : Option String) (cs : List Node) :
    occurrences v cs ≤ occurrences v [admonition kind cs] := by
  simp only [admonition, occurrences_blockquote]
  rw [occurrences_cons, occurrences_boldParagraph]
  exact occurrences_le_splitTitle cs _

theorem occurrences_le_aside (cs : List Node) : occurrences v cs ≤ occurrences v [aside cs] := by
  have hsplit := occurrences_le_splitTitle (v := v) cs []
  have hbold := occurrences_le_map (v := v) (f := boldParagraph)
    (fun ns => (occurrences_boldParagraph ns).ge) ((splitTitle cs).1.bind nonEmpty)
  rw [occurrences_bind_nonEmpty] at hbold
  simp only [aside, occurrences_blockquote, occurrences_append]
  omega

theorem occurrences_described (caption : String) (n : Node) :
    occurrences v [described caption n] = occurrences v [n] := by
  unfold described
  split
  · split <;> rfl
  · rfl

theorem occurrences_le_container (kind enumerator : Option String) (cs : List Node)
    (hcode : kind ≠ some "code") :
    occurrences v cs ≤
      occurrences v (container kind enumerator cs) + occurrences v (overwritten .caption cs) := by
  have hparts : occurrences v cs = occurrences v ((lastOf caption? cs).getD []) +
      occurrences v (overwritten .caption cs) + occurrences v (cs.filterMap legend?).flatten +
      occurrences v (cs.filter fun n => (caption? n).isNone && (legend? n).isNone) := by
    simp only [occurrences_eq_tally]
    exact tally_containerParts (fun _ => rfl) (fun _ => rfl) cs
  have hshown (f : List Node → Node) (hf : ∀ ns, occurrences v (inlineContent ns) ≤
      occurrences v [f ns]) : occurrences v ((lastOf caption? cs).getD []) ≤
        occurrences v ((lastOf caption? cs).map f).toList :=
    occurrences_le_map (fun ns => (occurrences_le_inlineContent ns).trans (hf ns)) _
  simp only [container]
  split
  next =>
    have hcaption := hshown (fun c =>
      Node.paragraph [.emphasis (numberedPrefix "Figure" enumerator ++ inlineContent c)])
      fun ns => by simp
    rw [occurrences_append, occurrences_append,
      occurrences_map (occurrences_described _)]
    omega
  next =>
    have hcaption := hshown (fun c =>
      boldParagraph (numberedPrefix "Table" enumerator ++ inlineContent c)) fun ns => by simp
    rw [occurrences_append, occurrences_append]
    omega
  next => exact absurd rfl hcode
  next =>
    have hcaption := hshown (fun c => Node.paragraph [.emphasis (inlineContent c)])
      fun ns => by simp
    rw [occurrences_append, occurrences_append]
    omega

theorem occurrences_le_card (url : Option String) (cs : List Node) :
    occurrences v cs ≤ occurrences v (card url cs) +
      occurrences v (cs.filter isCardMargin ++ overwritten .cardTitle cs) := by
  have hparts : occurrences v cs = occurrences v ((lastOf cardTitle? cs).getD []) +
      occurrences v (cs.filter isCardMargin ++ overwritten .cardTitle cs) +
      occurrences v (cs.filter fun n => (cardTitle? n).isNone && !isCardMargin n) := by
    simp only [occurrences_eq_tally]
    exact tally_cardParts (fun _ => rfl) cs
  have hshown (f : List Node → Node) (hf : ∀ ns, occurrences v [f ns] = occurrences v ns) :
      occurrences v ((lastOf cardTitle? cs).getD []) ≤ occurrences v
        (((lastOf cardTitle? cs).bind fun t => nonEmpty (inlineContent t)).map f).toList :=
    (occurrences_le_shown _ []).trans (occurrences_le_map (fun ns => (hf ns).ge) _)
  simp only [card, occurrences_append] at hparts ⊢
  refine le_trans ?_ (Nat.add_le_add_right (Nat.add_le_add_right (hshown _ fun ns => ?_) _) _)
  · omega
  · cases url <;> simp

theorem occurrences_le_details (cs : List Node) :
    occurrences v cs ≤ occurrences v [details cs] + occurrences v (overwritten .summary cs) := by
  have hparts : occurrences v cs = occurrences v ((lastOf summary? cs).getD []) +
      occurrences v (overwritten .summary cs) +
      occurrences v (cs.filter fun n => (summary? n).isNone) := by
    simp only [occurrences_eq_tally]
    exact tally_detailsParts (fun _ => rfl) cs
  have hsummary := occurrences_le_shown (v := v) (lastOf summary? cs) [.text "Details"]
  simp only [details, occurrences_blockquote]
  rw [occurrences_cons, occurrences_boldParagraph]
  omega

/-- The parts of a parent that have no place in what it gives way to. -/
def lostParts (p : Parent) (cs : List Node) : List Node :=
  match p with
  | .card _ => cs.filter isCardMargin ++ overwritten .cardTitle cs
  | .container kind _ _ _ =>
    if kind = some "code" then cs.filter fun n => (caption? n).isSome || (legend? n).isSome
    else overwritten .caption cs
  | .details _ => overwritten .summary cs
  | _ => []

theorem occurrences_le_degradeParent (p : Parent) (cs : List Node) :
    occurrences v cs ≤
      occurrences v (degradeParent false p cs) + occurrences v (lostParts p cs) := by
  cases p with
  | admonition kind => exact occurrences_le_admonition kind cs
  | exercise _ enumerator => exact occurrences_le_headed _ _ cs
  | solution => exact occurrences_le_headed _ _ cs
  | proof => exact occurrences_le_headed _ _ cs
  | tabSet | grid | inclusion => exact Nat.le_add_right _ _
  | tabItem title =>
    rw [degradeParent, occurrences_append]
    omega
  | card url => exact occurrences_le_card url cs
  | details => exact occurrences_le_details cs
  | aside => exact occurrences_le_aside cs
  | container kind _ enumerator =>
    by_cases hcode : kind = some "code"
    · subst hcode
      simp only [degradeParent, container, lostParts, occurrences_eq_tally]
      rw [tally_eq_add_filter fun n => (caption? n).isSome || (legend? n).isSome]
      simp [Nat.add_comm]
    · rw [lostParts, if_neg hcode]
      exact occurrences_le_container kind enumerator cs hcode
  | directive name _ _ value =>
    have hkept : cs = [] ∨ directive name value cs = cs := by
      cases cs with
      | nil => exact .inl rfl
      | cons c cs => exact .inr rfl
    rcases hkept with rfl | hkept
    · exact Nat.zero_le _
    · rw [degradeParent, hkept]
      exact Nat.le_add_right _ _
  | role _ value =>
    have hkept : cs = [] ∨ role value cs = cs := by
      cases cs with
      | nil => exact .inl rfl
      | cons c cs => exact .inr rfl
    rcases hkept with rfl | hkept
    · exact Nat.zero_le _
    · rw [degradeParent, hkept]
      exact Nat.le_add_right _ _
  | _ =>
    rw [degradeParent_eq_self rfl, occurrences_parent]
    exact Nat.le_add_right _ _

end

/-! Nodes whose prose is not counted. -/

/-- The children that a card or a container of code is meant to drop. -/
def drops (p : Parent) (n : Node) : Bool :=
  match p with
  | .card _ => isCardMargin n
  | .container kind _ _ _ => kind == some "code" && ((caption? n).isSome || (legend? n).isSome)
  | _ => false

mutual

/-- How many texts in the node have the value, apart from those that are meant to be dropped. -/
def prose (v : String) : Node → Nat
  | .leaf l => occurrences v [.leaf l]
  | .parent p cs => proseAll v (drops p) cs

def proseAll (v : String) (skip : Node → Bool) : List Node → Nat
  | [] => 0
  | n :: ns => (if skip n then 0 else prose v n) + proseAll v skip ns

end

mutual

/-- The parts below the node that degrading loses beyond those that it is meant to drop. -/
def lost : Node → List Node
  | .leaf _ => []
  | .parent p cs =>
    lostParts p (degrade false (cs.filter fun c => !drops p c)) ++ lostAll (drops p) cs

def lostAll (skip : Node → Bool) : List Node → List Node
  | [] => []
  | n :: ns => (if skip n then [] else lost n) ++ lostAll skip ns

end

theorem lastOf_filter {children? : Node → Option (List Node)} {keep : Node → Bool}
    (h : ∀ n, keep n = false → children? n = none) (ns : List Node) :
    lastOf children? (ns.filter keep) = lastOf children? ns := by
  rw [lastOf, lastOf, ← List.filter_reverse]
  induction ns.reverse with
  | nil => rfl
  | cons n ns ih =>
    cases hn : keep n with
    | true => rw [List.filter_cons_of_pos hn, List.findSome?_cons, List.findSome?_cons, ih]
    | false =>
      rw [List.filter_cons_of_neg (by simp [hn]), List.findSome?_cons, h n hn]
      exact ih

theorem degradeParent_drops (p : Parent) (cs : List Node) :
    degradeParent false p (cs.filter fun c => !drops p c) = degradeParent false p cs := by
  cases p with
  | card url =>
    have htitle :
        lastOf cardTitle? (cs.filter fun c => !isCardMargin c) = lastOf cardTitle? cs := by
      refine lastOf_filter (fun n hn => ?_) cs
      rw [Bool.not_eq_false'] at hn
      unfold isCardMargin at hn
      split at hn
      next => rfl
      next => rfl
      next => cases hn
    simp only [degradeParent, card, drops, htitle, List.filter_filter]
    simp
  | container kind target enumerator cssClass =>
    by_cases hcode : kind = some "code"
    · subst hcode
      simp [degradeParent, container, drops, List.filter_filter]
    · simp [drops, beq_false_of_ne hcode]
  | _ => simp [drops]

theorem exists_part_of_drops {p : Parent} {c : Node} (h : drops p c = true) :
    ∃ q cs, c = .parent q cs ∧ q ∈ [Parent.header, .footer, .caption, .legend] := by
  cases p with
  | card url =>
    simp only [drops] at h
    unfold isCardMargin at h
    split at h
    next cs => exact ⟨.header, cs, rfl, by simp⟩
    next cs => exact ⟨.footer, cs, rfl, by simp⟩
    next => cases h
  | container kind target enumerator cssClass =>
    simp only [drops, Bool.and_eq_true, Bool.or_eq_true, Option.isSome_iff_exists] at h
    rcases h with ⟨-, ⟨cs, hcs⟩ | ⟨cs, hcs⟩⟩
    · exact ⟨.caption, cs, partOf_eq_some.mp hcs, by simp⟩
    · exact ⟨.legend, cs, partOf_eq_some.mp hcs, by simp⟩
  | _ => cases h

/-- A child that is dropped gives way to one that is dropped. -/
theorem drops_degradeNode {p : Parent} {c : Node} (h : drops p c = true) :
    ∀ m ∈ (degradeNode false c).map Node.withoutTarget, drops p m = true := by
  obtain ⟨q, cs, rfl, hq⟩ := exists_part_of_drops h
  have hpart : (degradeNode false (.parent q cs)).map Node.withoutTarget =
      [.parent q (degrade false cs)] := by
    simp only [List.mem_cons, List.not_mem_nil, or_false] at hq
    rcases hq with rfl | rfl | rfl | rfl <;> rfl
  have hkind : drops p (.parent q (degrade false cs)) = drops p (.parent q cs) := by
    simp only [List.mem_cons, List.not_mem_nil, or_false] at hq
    rcases hq with rfl | rfl | rfl | rfl <;> cases p <;> rfl
  rw [hpart, List.forall_mem_singleton, hkind]
  exact h

/-- What is meant to be dropped has no effect. -/
theorem degradeParent_filter (p : Parent) (cs : List Node) :
    degradeParent false p (degrade false cs) =
      degradeParent false p (degrade false (cs.filter fun c => !drops p c)) := by
  have hkept : (degrade false cs).filter (fun c => !drops p c) =
      (degrade false (cs.filter fun c => !drops p c)).filter fun c => !drops p c := by
    induction cs with
    | nil => rfl
    | cons c cs ih =>
      cases hc : drops p c with
      | true =>
        have hnone : ((degradeNode false c).map Node.withoutTarget).filter (fun m => !drops p m) =
            [] := by
          refine List.filter_eq_nil_iff.mpr fun m hm => ?_
          simp [drops_degradeNode hc m hm]
        rw [List.filter_cons_of_neg (by simp [hc]), degrade, List.filter_append, hnone,
          List.nil_append, ih]
      | false =>
        rw [List.filter_cons_of_pos (by simp [hc]), degrade, degrade, List.filter_append,
          List.filter_append, ih]
  rw [← degradeParent_drops, hkept, degradeParent_drops]

variable {v : String}

mutual

theorem prose_le_degradeNode : (n : Node) →
    prose v n ≤ occurrences v (degradeNode false n) + occurrences v (lost n)
  | .leaf l => by
    cases l with
    | text value => exact Nat.le_add_right _ _
    | _ => exact Nat.zero_le _
  | .parent p cs => by
    have hchildren := proseAll_le_degrade (drops p) cs
    have hnode := occurrences_le_degradeParent (v := v) p
      (degrade false (cs.filter fun c => !drops p c))
    rw [prose, degradeNode, degradeParent_filter, lost, occurrences_append]
    omega

theorem proseAll_le_degrade (skip : Node → Bool) : (ns : List Node) →
    proseAll v skip ns ≤ occurrences v (degrade false (ns.filter fun n => !skip n)) +
      occurrences v (lostAll skip ns)
  | [] => Nat.zero_le _
  | n :: ns => by
    have hfirst := prose_le_degradeNode n
    have hrest := proseAll_le_degrade skip ns
    rw [proseAll, lostAll, occurrences_append]
    cases hn : skip n with
    | true =>
      rw [List.filter_cons_of_neg (by simp [hn])]
      simpa using hrest
    | false =>
      rw [List.filter_cons_of_pos (by simp [hn]), degrade, occurrences_append,
        occurrences_map_withoutTarget]
      simp only [Bool.false_eq_true, if_false]
      omega

end

/-- Every value occurs in the degraded nodes at least as often as in their prose, up to how often it
occurs in the parts that reach a card or a container of code although they are no children of it,
and in the captions, card titles and summaries that come before another of their kind. -/
theorem proseAll_le_occurrences (v : String) (ns : List Node) :
    proseAll v (fun _ => false) ns ≤
      occurrences v (degrade false ns) + occurrences v (lostAll (fun _ => false) ns) := by
  have hle := proseAll_le_degrade (v := v) (fun _ => false) ns
  have hall : (ns.filter fun _ => !false) = ns := List.filter_eq_self.mpr fun _ _ => rfl
  rwa [hall] at hle

/-- The header of an included file is dropped by the card around it, and a caption by the next. -/
theorem degrade_dropsProse :
    let included : List Node := [.parent (.card none)
      [.parent (.inclusion (some "part.md")) [.parent .header [.text "lost"]]]]
    let captioned : List Node := [.parent (.container none {} none none)
      [.parent .caption [.text "first"], .parent .caption [.text "second"]]]
    (degrade false included = [] ∧
      occurrences "lost" (degrade false included) < proseAll "lost" (fun _ => false) included) ∧
    degrade false captioned = [.paragraph [.emphasis [.text "second"]]] ∧
      occurrences "first" (degrade false captioned) <
        proseAll "first" (fun _ => false) captioned := by
  decide

end MystNotebook.CommonMark
