import MystNotebook.Proofs.UnmodelledPhrasing

/-! List items whose children are phrasing content. Each child is written on lines of its own, in a
tight item as in a spread one, where the same content as a paragraph stays on a running line. -/
namespace MystNotebook.Markdown
open Text Draft

/-! The children of an item. -/

/-- What ends a child of an item, when another one follows it. -/
def childEnding (spread : Bool) : List Char := if spread then ['\n', '\n'] else ['\n']

/-- A text behind which the next child of an item can start. -/
def EndsChild (spread : Bool) (s : List Char) : Prop := s = [] ∨ childEnding spread <:+ s

/-- The text with its last line ended and, in a spread item, with an empty line below it. -/
def endedChild (spread : Bool) (s : List Char) : List Char :=
  if spread && !((closedLine s).isEmpty || ['\n', '\n'].isSuffixOf (closedLine s))
  then closedLine s ++ ['\n'] else closedLine s

/-- What phrasing content writes as the children of an item, up to where another would start. -/
def itemRun (spread : Bool) (cs : List Node) : List Char :=
  cs.foldl (fun s n => endedChild spread (s ++ phrasingText false n)) []

variable {spread : Bool} {s t : List Char} {xs cs : List Node}

theorem EndsChild.wholeLines (h : EndsChild spread s) : WholeLines s := by
  rcases h with rfl | ⟨front, rfl⟩
  · exact .inl rfl
  · cases spread <;> exact .inr (by simp [childEnding])

theorem EndsChild.endsInTick (h : EndsChild spread s) : endsInTick false s = false := by
  rcases h.wholeLines with rfl | hlast
  · rfl
  · simp [Markdown.endsInTick, hlast]

theorem endsChild_endedChild (spread : Bool) (s : List Char) :
    EndsChild spread (endedChild spread s) := by
  have hclosed : WholeLines (closedLine s) := wholeLines_closedLine s
  cases spread with
  | false =>
    refine hclosed.imp_right fun hlast => ?_
    obtain ⟨front, hfront⟩ := List.getLast?_eq_some_iff.mp hlast
    exact ⟨front, hfront.symm⟩
  | true =>
    unfold endedChild
    split
    next hopen =>
      right
      have hne : closedLine s ≠ [] := by
        intro hnil
        simp [hnil] at hopen
      obtain ⟨front, hfront⟩ := List.getLast?_eq_some_iff.mp (hclosed.resolve_left hne)
      exact ⟨front, by rw [hfront, List.append_assoc]; rfl⟩
    next hdone =>
      have hclose : closedLine s ≠ [] → ['\n', '\n'] <:+ closedLine s := by simpa using hdone
      exact or_iff_not_imp_left.mpr hclose

theorem endedChild_closedLine (spread : Bool) (s : List Char) :
    endedChild spread (closedLine s) = endedChild spread s := by
  rw [endedChild, endedChild, closedLine_of_wholeLines (wholeLines_closedLine s)]

theorem endedChild_of_endsChild (h : EndsChild spread s) : endedChild spread s = s := by
  have hclosed : closedLine s = s := closedLine_of_wholeLines h.wholeLines
  rw [endedChild, hclosed, if_neg]
  cases spread with
  | false => simp
  | true =>
    have hends : s ≠ [] → ['\n', '\n'] <:+ s := or_iff_not_imp_left.mp h
    simpa using hends

/-- Ending a child adds newlines, and at least one if it has not ended. -/
theorem exists_endedChild (spread : Bool) (s : List Char) :
    ∃ t, endedChild spread s = s ++ t ∧ (∀ c ∈ t, c = '\n') ∧ (¬ EndsChild spread s → t ≠ []) := by
  have hends := endsChild_endedChild spread s
  have hadds : ∃ t, endedChild spread s = s ++ t ∧ ∀ c ∈ t, c = '\n' := by
    unfold endedChild
    by_cases hs : WholeLines s
    · rw [closedLine_of_wholeLines hs]
      split
      · exact ⟨['\n'], rfl, by simp⟩
      · exact ⟨[], (List.append_nil s).symm, by simp⟩
    · rw [closedLine_of_not_wholeLines hs]
      split
      · exact ⟨['\n', '\n'], by simp, by simp⟩
      · exact ⟨['\n'], rfl, by simp⟩
  obtain ⟨t, heq, ht⟩ := hadds
  refine ⟨t, heq, ht, ?_⟩
  rintro hopen rfl
  rw [heq, List.append_nil] at hends
  exact hopen hends

theorem trimNewlines_endedChild (spread : Bool) (s : List Char) :
    trimNewlines (endedChild spread s) = trimNewlines s := by
  obtain ⟨t, heq, ht, -⟩ := exists_endedChild spread s
  rw [heq, trimNewlines_append ht]

theorem count_le_endedChild (spread : Bool) (s : List Char) :
    s.count '\n' ≤ (endedChild spread s).count '\n' := by
  obtain ⟨t, heq, -⟩ := exists_endedChild spread s
  rw [heq, List.count_append]
  exact Nat.le_add_right _ _

theorem count_lt_endedChild (h : ¬ EndsChild spread s) :
    s.count '\n' < (endedChild spread s).count '\n' := by
  obtain ⟨t, heq, ht, hne⟩ := exists_endedChild spread s
  have hlen : 0 < t.length := List.length_pos_iff.mpr (hne h)
  rw [heq, List.count_append, List.count_eq_length.mpr fun c hc => (ht c hc).symm]
  omega

theorem itemRun_concat (spread : Bool) (xs : List Node) (n : Node) :
    itemRun spread (xs ++ [n]) =
      endedChild spread (itemRun spread xs ++ phrasingText false n) := by
  simp [itemRun]

theorem endsChild_itemRun (spread : Bool) (xs : List Node) :
    EndsChild spread (itemRun spread xs) := by
  rcases List.eq_nil_or_concat xs with rfl | ⟨xs, n, rfl⟩
  · exact .inl rfl
  · rw [List.concat_eq_append, itemRun_concat]
    exact endsChild_endedChild spread _

/-! Against the running line, newline by newline. -/

theorem SpacedBy.newlines (h : SpacedBy s t) (hs : ∀ c ∈ s, c = '\n') : t = s := by
  rcases h with rfl | ⟨htick, -⟩
  · rfl
  · exact absurd (hs '`' (List.mem_of_mem_head? htick)) (by decide)

theorem SpacedBy.mem {c : Char} (h : SpacedBy s t) (hc : c ∈ s) : c ∈ t := by
  rcases h with rfl | ⟨-, rfl⟩
  · exact hc
  · exact List.mem_cons_of_mem ' ' hc

theorem SpacedBy.count_newline (h : SpacedBy s t) : t.count '\n' = s.count '\n' := by
  rcases h with rfl | ⟨-, rfl⟩
  · rfl
  · exact List.count_cons_of_ne (by decide)

theorem SpacedBy.count_trimNewlines (h : SpacedBy s t) :
    (trimNewlines t).count '\n' = (trimNewlines s).count '\n' := by
  rcases h with rfl | ⟨htick, rfl⟩
  · rfl
  · have hspace : trimNewlines (' ' :: s) = ' ' :: trimNewlines s :=
      trimNewlines_append_of_mem (List.mem_of_mem_head? htick) (by decide) [' ']
    rw [hspace]
    exact List.count_cons_of_ne (by decide)

/-- What one more phrase adds to a running line. -/
theorem exists_phrasingTextAll_concat (spread : Bool) (xs : List Node) (n : Node) :
    ∃ t, phrasingTextAll false (xs ++ [n]) = phrasingTextAll false xs ++ t ∧
      SpacedBy (phrasingText false n) t ∧
      (EndsChild spread (phrasingTextAll false xs) → t = phrasingText false n) := by
  refine ⟨phrasingText (endsInTick false (phrasingTextAll false xs)) n, ?_, ?_, ?_⟩
  · rw [phrasingTextAll_append, phrasingTextAll, phrasingTextAll, List.append_nil]
  · cases endsInTick false (phrasingTextAll false xs) with
    | false => exact .inl rfl
    | true => exact spacedBy_phrasingText n
  · intro hends
    rw [hends.endsInTick]

/-- The children either write the running line or more newlines than it has. -/
theorem itemRun_eq_or_count_lt (spread : Bool) (xs : List Node) :
    itemRun spread xs = phrasingTextAll false xs ∨
      (phrasingTextAll false xs).count '\n' < (itemRun spread xs).count '\n' := by
  induction xs using List.reverseRecOn with
  | nil => exact .inl rfl
  | append_singleton xs n ih =>
    obtain ⟨t, htext, hspaced, hsame⟩ := exists_phrasingTextAll_concat spread xs n
    rw [itemRun_concat, htext]
    rcases ih with heq | hlt
    · have hends := endsChild_itemRun spread xs
      rw [heq] at hends ⊢
      rw [hsame hends]
      by_cases hdone : EndsChild spread (phrasingTextAll false xs ++ phrasingText false n)
      · exact .inl (endedChild_of_endsChild hdone)
      · exact .inr (count_lt_endedChild hdone)
    · right
      have hle := count_le_endedChild spread (itemRun spread xs ++ phrasingText false n)
      have hcount := hspaced.count_newline
      rw [List.count_append] at hle ⊢
      omega

/-- They write the running line exactly if each of them leaves it where the next can start. -/
theorem itemRun_eq_iff (spread : Bool) (xs : List Node) :
    itemRun spread xs = phrasingTextAll false xs ↔
      ∀ zs, zs <+: xs → EndsChild spread (phrasingTextAll false zs) := by
  induction xs using List.reverseRecOn with
  | nil =>
    refine iff_of_true rfl fun zs hzs => ?_
    rw [List.prefix_nil.mp hzs]
    exact .inl rfl
  | append_singleton xs n ih =>
    obtain ⟨t, htext, hspaced, hsame⟩ := exists_phrasingTextAll_concat spread xs n
    simp only [List.prefix_concat_iff, or_imp, forall_and, forall_eq]
    rw [← ih]
    constructor
    · intro heq
      refine ⟨heq ▸ endsChild_itemRun spread (xs ++ [n]), ?_⟩
      refine (itemRun_eq_or_count_lt spread xs).resolve_right fun hlt => ?_
      have hle := count_le_endedChild spread (itemRun spread xs ++ phrasingText false n)
      have hcount := hspaced.count_newline
      rw [← itemRun_concat, heq, htext, List.count_append, List.count_append] at hle
      omega
    · rintro ⟨hends, heq⟩
      have hxs := endsChild_itemRun spread xs
      rw [heq] at hxs
      rw [htext, hsame hxs] at hends ⊢
      rw [itemRun_concat, heq, endedChild_of_endsChild hends]

/-- Newlines at the end aside, a child that leaves the running line open matters exactly if
something other than newlines follows it. -/
theorem trimNewlines_itemRun_iff (spread : Bool) (cs : List Node) :
    trimNewlines (itemRun spread cs) = trimNewlines (phrasingTextAll false cs) ↔
      ∀ xs, xs <+: cs → EndsChild spread (phrasingTextAll false xs) ∨
        trimNewlines (phrasingTextAll false xs) = trimNewlines (phrasingTextAll false cs) := by
  induction cs using List.reverseRecOn with
  | nil =>
    refine iff_of_true rfl fun xs hxs => ?_
    rw [List.prefix_nil.mp hxs]
    exact .inr rfl
  | append_singleton cs n ih =>
    obtain ⟨t, htext, hspaced, hsame⟩ := exists_phrasingTextAll_concat spread cs n
    simp only [List.prefix_concat_iff, or_imp, forall_and, forall_eq, or_true, true_and]
    rw [itemRun_concat, trimNewlines_endedChild, htext]
    by_cases hn : ∀ c ∈ phrasingText false n, c = '\n'
    · rw [hspaced.newlines hn, trimNewlines_append hn, trimNewlines_append hn]
      exact ih
    · push Not at hn
      obtain ⟨x, hx, hne⟩ := hn
      have hmore (xs : List Node) (hxs : xs <+: cs) :
          trimNewlines (phrasingTextAll false xs) ≠
            trimNewlines (phrasingTextAll false cs ++ t) := by
        obtain ⟨ys, rfl⟩ := hxs
        rw [phrasingTextAll_append, List.append_assoc]
        exact trimNewlines_ne_append (List.mem_append_right _ (hspaced.mem hx)) hne _
      have hruns : (∀ xs, xs <+: cs → EndsChild spread (phrasingTextAll false xs) ∨
          trimNewlines (phrasingTextAll false xs) = trimNewlines (phrasingTextAll false cs ++ t)) ↔
          itemRun spread cs = phrasingTextAll false cs := by
        rw [itemRun_eq_iff]
        exact forall₂_congr fun xs hxs => or_iff_left (hmore xs hxs)
      rw [hruns, trimNewlines_append_of_mem hx hne,
        trimNewlines_append_of_mem (hspaced.mem hx) hne]
      constructor
      · intro heq
        refine (itemRun_eq_or_count_lt spread cs).resolve_right fun hlt => ?_
        have hcount := congrArg (List.count '\n') heq
        rw [List.count_append, List.count_append, hspaced.count_trimNewlines] at hcount
        omega
      · intro heq
        have hends := endsChild_itemRun spread cs
        rw [heq] at hends ⊢
        rw [hsame hends]

/-! The item, and the list that it makes up. -/

namespace Draft

/-- Makes room for the next child of an item. -/
def endChild (d : Draft) (spread : Bool) : Draft := if spread then d.blankLine else d.newline

theorem endsWithBlankLine_eq {d : Draft} (h : d.before = []) :
    d.endsWithBlankLine = ['\n', '\n'].isPrefixOf d.page := by
  unfold endsWithBlankLine recent
  rw [h]
  rcases d.page with _ | ⟨a, _ | ⟨b, page⟩⟩
  · rfl
  · simp [List.isPrefixOf]
  · simp [List.isPrefixOf, Bool.beq_comm]

/-- On a page that nothing stands before. -/
theorem Adds.endChild {d : Draft} (h : Adds s {} d) (spread : Bool) :
    Adds (endedChild spread s) {} (d.endChild spread) := by
  have hline := h.newline rfl
  cases spread with
  | false => exact hline
  | true =>
    have hpage := hline.page_eq
    have hblank : d.newline.endsWithBlankLine = ['\n', '\n'].isSuffixOf (closedLine s) := by
      rw [endsWithBlankLine_eq hline.before, hpage]
      rfl
    have hempty : d.newline.isEmpty = (closedLine s).isEmpty := by
      rw [Draft.isEmpty, hpage, hline.before]
      simp
    have hstart : d.newline.lineStart = true := by
      rw [hline.lineStart]
      rcases wholeLines_closedLine s with hnil | hlast
      · simp [hnil]
      · simp [hlast]
    simp only [Draft.endChild, if_true, blankLine, endedChild, Bool.true_and, hblank, hempty,
      Bool.not_or, Bool.and_comm (!(closedLine s).isEmpty)]
    split
    next => exact ⟨hline.before, by simp [push, hpage], by simp [push, hstart]⟩
    next => exact hline

end Draft

/-! What an item shows of a text. -/

theorem indentedLine_inj {width : Nat} {line line' : List Char} :
    indentedLine width line = indentedLine width line' ↔ line = line' := by
  refine ⟨fun heq => ?_, fun heq => heq ▸ rfl⟩
  have hindent (l : List Char) : indentedLine width l =
      (if l.isEmpty then [] else List.replicate width ' ' ++ l) ++ ['\n'] := by
    unfold indentedLine
    split <;> rfl
  rw [hindent, hindent, List.append_left_inj] at heq
  cases line <;> cases line' <;> simp_all

theorem fullLines_indentedLine_append {line : List Char} (h : '\n' ∉ line) (width : Nat)
    (t : List Char) :
    fullLines (indentedLine width line ++ t) = indentedLine width line :: fullLines t := by
  unfold indentedLine
  split
  · rfl
  · have hline : '\n' ∉ List.replicate width ' ' ++ line := by
      rw [List.mem_append, List.mem_replicate]
      simp [h]
    rw [List.append_assoc _ ['\n'], List.singleton_append, fullLines_append_newline,
      fullLines_line hline, List.singleton_append]

theorem fullLines_flatMap_indentedLine {lines : List (List Char)} (h : ∀ l ∈ lines, '\n' ∉ l)
    (width : Nat) :
    fullLines (lines.flatMap (indentedLine width)) = lines.map (indentedLine width) := by
  induction lines with
  | nil => rfl
  | cons line lines ih =>
    obtain ⟨hline, hlines⟩ := List.forall_mem_cons.mp h
    rw [List.flatMap_cons, fullLines_indentedLine_append hline, ih hlines, List.map_cons]

/-- The first line stands one blank behind the marker, the others below it. -/
theorem exists_itemText_eq (marker body : List Char) :
    ∃ line rest, bodyLines body = line :: rest ∧ ∃ text, itemText marker body =
        trimEnd marker ++ text ∧
      fullLines text = indentedLine 1 line :: rest.map (indentedLine marker.length) := by
  obtain ⟨line, rest, hlines, -⟩ := pieces_cases (trimNewlines body)
  rw [← bodyLines] at hlines
  have hnewline : ∀ l ∈ line :: rest, '\n' ∉ l := fun l hl =>
    newline_not_mem_of_mem_pieces (s := trimNewlines body) (by rwa [← bodyLines, hlines])
  obtain ⟨hline, hrest⟩ := List.forall_mem_cons.mp hnewline
  refine ⟨line, rest, hlines, indentedLine 1 line ++ rest.flatMap (indentedLine marker.length),
    ?_, ?_⟩
  · simp only [itemText, hlines, indentedLine]
    split <;> simp
  · rw [fullLines_indentedLine_append hline, fullLines_flatMap_indentedLine hrest]

/-- All but the newlines at its end. -/
theorem itemText_inj {marker body body' : List Char} :
    itemText marker body = itemText marker body' ↔ trimNewlines body = trimNewlines body' := by
  constructor
  · intro heq
    obtain ⟨line, rest, hlines, text, htext, hfull⟩ := exists_itemText_eq marker body
    obtain ⟨line', rest', hlines', text', htext', hfull'⟩ := exists_itemText_eq marker body'
    rw [htext, htext', List.append_right_inj] at heq
    rw [heq, hfull', List.cons.injEq, indentedLine_inj] at hfull
    have hrest : rest' = rest :=
      List.map_injective_iff.mpr (fun _ _ h => indentedLine_inj.mp h) hfull.2
    refine pieces_injective ?_
    rw [← bodyLines, ← bodyLines, hlines, hlines', hfull.1, hrest]
  · intro heq
    rw [itemText, itemText, bodyLines, bodyLines, heq]

/-! The list. -/

theorem asBlock_of_inline {n : Node} (h : isInline n = true) (hplain : writesDirective n = false)
    (write : Draft → Draft) (d : Draft) : d.asBlock n write = (write d.newline).newline := by
  unfold asBlock
  split
  next i => exact if_neg (by simpa [writesDirective] using hplain)
  next => exact if_pos h

/-- Phrasing content in block position stands on lines of its own. -/
theorem adds_asBlock {n : Node} (hn : n.Everywhere (isInline · = true))
    (hplain : writesDirective n = false) {d : Draft} (h : Adds s {} d)
    (hstart : EndsChild spread s) :
    Adds (closedLine (s ++ phrasingText false n)) {} (d.asBlock n (writeNode n)) := by
  have hline := h.newline rfl
  rw [closedLine_of_wholeLines hstart.wholeLines] at hline
  have hnode := adds_writeNode n hn d.newline
  have htick : d.newline.endsWith '`' = false := by
    rw [hline.endsWith_tick]
    exact hstart.endsInTick
  rw [htick] at hnode
  rw [asBlock_of_inline hn.self hplain]
  exact (hline.trans hnode).newline rfl

/-- The children after the first, which has begun the item. -/
theorem adds_writeItemBody (hcs : ∀ n ∈ cs, n.Everywhere (isInline · = true))
    (hplain : ∀ n ∈ cs, writesDirective n = false) (spread : Bool) {d : Draft}
    (h : Adds s {} d) :
    Adds (cs.foldl (fun s n => endedChild spread (s ++ phrasingText false n))
        (endedChild spread s))
      {} ((writeItemBody spread true cs d).endChild spread) := by
  induction cs generalizing s d with
  | nil =>
    rw [writeItemBody]
    exact h.endChild spread
  | cons n cs ih =>
    obtain ⟨hn, hcs⟩ := List.forall_mem_cons.mp hcs
    obtain ⟨hnplain, hplain⟩ := List.forall_mem_cons.mp hplain
    have hchild := adds_asBlock hn hnplain (h.endChild spread) (endsChild_endedChild spread s)
    have hrest := ih hcs hplain hchild
    rw [endedChild_closedLine] at hrest
    exact hrest

theorem trimNewlines_endChild (spread : Bool) (d : Draft) :
    trimNewlines (d.endChild spread).page.reverse = trimNewlines d.page.reverse := by
  have hpush (e : Draft) :
      trimNewlines (e.push ['\n']).page.reverse = trimNewlines e.page.reverse := by
    rw [push, List.reverse_append, List.reverse_reverse, trimNewlines_append (by simp)]
  have hline : trimNewlines d.newline.page.reverse = trimNewlines d.page.reverse := by
    unfold newline
    split
    · exact hpush d
    · rfl
  cases spread with
  | false => exact hline
  | true =>
    simp only [endChild, if_true, blankLine]
    split
    · rw [hpush, hline]
    · exact hline

/-- Newlines at the end aside, the children of an item are written as their run. -/
theorem trimNewlines_writeItemBody (hcs : ∀ n ∈ cs, n.Everywhere (isInline · = true))
    (hplain : ∀ n ∈ cs, writesDirective n = false) (spread : Bool) :
    trimNewlines (writeItemBody spread false cs {}).page.reverse =
      trimNewlines (itemRun spread cs) := by
  -- on an empty page there is nothing to end before the first child
  have hfirst : writeItemBody spread false cs {} = writeItemBody spread true cs {} := by
    cases cs <;> cases spread <;> rfl
  have hadds := adds_writeItemBody hcs hplain spread (Adds.refl {})
  rw [endedChild_of_endsChild (.inl rfl), ← itemRun] at hadds
  rw [hfirst, ← trimNewlines_endChild spread, hadds.page_eq, List.reverse_reverse]

theorem page_writeItemBody_paragraph (h : ∀ n ∈ cs, n.Everywhere (isInline · = true))
    (spread : Bool) :
    (writeItemBody spread false [.paragraph cs] {}).page.reverse =
      phrasingTextAll false cs ++ ['\n'] := by
  simp [writeItemBody, Node.paragraph, Draft.asBlock, isInline, writeNode, Draft.newline,
    Draft.atLineStart, Draft.push, page_phrasing h]

theorem write_item (separators ordered : Bool) (start : Option UInt32) (spread itemSpread : Bool)
    (cs : List Node) :
    write separators [.parent (.list ordered start spread) [.parent (.listItem itemSpread) cs]] =
      String.ofList (itemText (marker ordered (start.getD 1))
        (writeItemBody (spread || itemSpread) false cs {}).page.reverse) := by
  rw [write, draftOf_singleton rfl rfl]
  simp [writeNode, writeItems, capture, recent, Draft.push, Draft.newline, Draft.atLineStart]

/-- An item with phrasing content is written as that with a paragraph of it exactly if each of its
children leaves the running line where the next one would start anyway, or nothing but newlines
comes after it: an item that is not spread needs a newline there, and a spread one an empty line. -/
theorem write_item_eq_iff (hcs : ∀ n ∈ cs, n.Everywhere (isInline · = true))
    (hplain : ∀ n ∈ cs, writesDirective n = false) (separators ordered : Bool)
    (start : Option UInt32) (spread itemSpread : Bool) :
    write separators [.parent (.list ordered start spread) [.parent (.listItem itemSpread) cs]] =
        write separators
          [.parent (.list ordered start spread) [.parent (.listItem itemSpread) [.paragraph cs]]] ↔
      ∀ xs, xs <+: cs → EndsChild (spread || itemSpread) (phrasingTextAll false xs) ∨
        trimNewlines (phrasingTextAll false xs) = trimNewlines (phrasingTextAll false cs) := by
  rw [write_item, write_item, String.ofList_inj, itemText_inj,
    trimNewlines_writeItemBody hcs hplain, page_writeItemBody_paragraph hcs,
    trimNewlines_append (by simp)]
  exact trimNewlines_itemRun_iff (spread || itemSpread) cs

/-- A line that ends in the text itself, and one that nothing follows. -/
theorem write_item_brokenText :
    let cs : List Node := [.text "a\n", .strong [.text "b"], .text "\n"]
    ((∀ n ∈ cs, n.Everywhere (isInline · = true)) ∧ ∀ n ∈ cs, writesDirective n = false) ∧
      write true [.parent (.list true (some 7) false) [.parent (.listItem false) cs]] =
        write true
          [.parent (.list true (some 7) false) [.parent (.listItem false) [.paragraph cs]]] := by
  intro cs
  have hcs : ∀ n ∈ cs, n.Everywhere (isInline · = true) := by
    simp [cs, Node.text, Node.strong, isInline]
  have hplain : ∀ n ∈ cs, writesDirective n = false := by
    simp [cs, Node.text, Node.strong, writesDirective]
  refine ⟨⟨hcs, hplain⟩, (write_item_eq_iff hcs hplain true true (some 7) false false).mpr ?_⟩
  intro xs hxs
  have hfronts : xs ∈ cs.inits := (List.mem_inits xs cs).mpr hxs
  simp only [cs, List.inits, List.map_cons, List.map_nil, List.mem_cons, List.not_mem_nil,
    or_false] at hfronts
  rcases hfronts with rfl | rfl | rfl | rfl
  · exact .inl (.inl rfl)
  · exact .inl (.inr (by decide))
  · exact .inr (by decide)
  · exact .inr rfl

/-- Two texts side by side are one word in a paragraph; in an item they are on two lines, and in a
spread item in two paragraphs. -/
theorem write_item_twoTexts :
    let cs : List Node := [.text "a", .text "b"]
    let list (spread : Bool) (cs : List Node) : List Node :=
      [.parent (.list false none spread) [.parent (.listItem false) cs]]
    write true (list false cs) = "- a\n  b\n" ∧ write true (list true cs) = "- a\n\n  b\n" ∧
      write true (list false [.paragraph cs]) = "- ab\n" ∧
      write true (list true [.paragraph cs]) = "- ab\n" ∧
      write true (list false cs) ≠ write true (list false [.paragraph cs]) ∧
      write true (list true cs) ≠ write true (list true [.paragraph cs]) := by
  decide

end MystNotebook.Markdown
