import MystNotebook.Proofs.InnerBlocks
import MystNotebook.Proofs.PhrasingText

/-! Nodes of unknown kinds among phrasing content. They are written as their children, but on lines
of their own, so that in the middle of a line a newline comes in before them and behind them. -/
namespace MystNotebook.Markdown
open Text Draft

theorem closedLine_of_wholeLines {s : List Char} (h : WholeLines s) : closedLine s = s := by
  unfold closedLine
  rcases h with rfl | h
  · rfl
  · simp [h]

theorem closedLine_of_not_wholeLines {s : List Char} (h : ¬ WholeLines s) :
    closedLine s = s ++ ['\n'] := by
  rw [WholeLines, not_or] at h
  simp [closedLine, h.1, h.2]

theorem wholeLines_closedLine (value : List Char) : WholeLines (closedLine value) := by
  by_cases h : WholeLines value
  · rwa [closedLine_of_wholeLines h]
  · rw [closedLine_of_not_wholeLines h]
    exact .inr List.getLast?_concat

namespace Draft

/-- Ending the line closes what has been added since a line started. -/
theorem Adds.newline {s : List Char} {d d' : Draft} (h : Adds s d d') (hd : d.lineStart = true) :
    Adds (closedLine s) d d'.newline := by
  by_cases hs : WholeLines s
  · have hstart : d'.lineStart = true := by
      rw [h.lineStart, hd]
      rcases hs with rfl | hs
      · rfl
      · simp [hs]
    have hnewline : d'.newline = d' := by simp [Draft.newline, hstart]
    rw [hnewline, closedLine_of_wholeLines hs]
    exact h
  · rw [closedLine_of_not_wholeLines hs]
    rw [WholeLines, not_or] at hs
    have hstart : d'.lineStart = false := by
      rw [h.lineStart]
      simp [hs.1, hs.2]
    have hpage : d'.isEmpty = false := by
      rw [Draft.isEmpty, h.page]
      simp [hs.1]
    have hnewline : d'.newline = d'.inline ['\n'] := by
      simp [Draft.newline, hstart, hpage, Draft.inline, Draft.atLineStart]
    rw [hnewline]
    exact h.trans (Adds.inline d' ['\n'])

end Draft

variable {xs cs ys : List Node}

theorem all_isInline {ns : List Node} (h : ∀ n ∈ ns, n.Everywhere (isInline · = true)) :
    ns.all isInline = true :=
  List.all_eq_true.mpr fun n hn => (h n hn).self

/-- A node of an unknown kind closes the line before it and its own. -/
theorem adds_unmodelled {s : List Char} {d d' : Draft} (hadds : Adds s d d')
    (hd : d.lineStart = true) (h : ∀ n ∈ cs, n.Everywhere (isInline · = true)) (hne : cs ≠ [])
    (name : String) (fields : Json.Fields) :
    Adds (closedLine (closedLine s ++
        phrasingTextAll (endsInTick (d.endsWith '`') (closedLine s)) cs))
      d (writeNode (.parent (.other name fields) cs) d') := by
  have hline := (hadds.report name "no Markdown form for this node; writing its content").newline hd
  have hchildren := adds_writeInlines cs h
    (d'.report name "no Markdown form for this node; writing its content").newline
  rw [hline.endsWith_tick] at hchildren
  simp only [writeNode, List.isEmpty_eq_false_iff.mpr hne, Bool.false_eq_true, if_false, Draft.flow,
    all_isInline h, if_true]
  exact (hline.trans hchildren).newline hd

/-- A newline that comes into phrasing content is not made up for by a space that it saves. -/
theorem newline_cons_ne {s : List Char} {ns : List Node}
    (h : (phrasingTextAll false ns).length ≤ s.length) (tick : Bool) :
    '\n' :: s ≠ phrasingTextAll tick ns := by
  intro heq
  rcases spacedBy_tick tick ns with hsame | ⟨-, hspace⟩
  · rw [← hsame, ← heq, List.length_cons] at h
    omega
  · rw [hspace] at heq
    exact absurd (List.cons.inj heq).1 (by decide)

/-- The text of a line with a node of an unknown kind between `xs` and `ys`, whose children are
`cs`. -/
def unmodelledText (xs cs ys : List Node) : List Char :=
  let before := closedLine (phrasingTextAll false xs)
  let inner := before ++ phrasingTextAll (endsInTick false before) cs
  closedLine inner ++ phrasingTextAll (endsInTick false (closedLine inner)) ys

/-- Behind whole lines, only the end of the children matters. -/
theorem unmodelledText_of_wholeLines (hxs : WholeLines (phrasingTextAll false xs)) :
    unmodelledText xs cs ys = closedLine (phrasingTextAll false (xs ++ cs)) ++
      phrasingTextAll (endsInTick false (closedLine (phrasingTextAll false (xs ++ cs)))) ys := by
  have hinner : phrasingTextAll false (xs ++ cs) = phrasingTextAll false xs ++
      phrasingTextAll (endsInTick false (phrasingTextAll false xs)) cs :=
    phrasingTextAll_append false xs cs
  simp only [unmodelledText, closedLine_of_wholeLines hxs, hinner]

/-- In the middle of a line, both texts start with that of `xs`, and only the one goes on with a
newline. -/
theorem unmodelledText_ne (hxs : ¬ WholeLines (phrasingTextAll false xs)) :
    unmodelledText xs cs ys ≠ phrasingTextAll false (xs ++ cs ++ ys) := by
  intro heq
  have hinner : phrasingTextAll false xs ++ ['\n'] ++ phrasingTextAll
      (endsInTick false (phrasingTextAll false xs ++ ['\n'])) cs =
        phrasingTextAll false xs ++ '\n' :: phrasingTextAll false cs := by
    rw [endsInTick_append, List.append_assoc]
    rfl
  have hphrasing : phrasingTextAll false (xs ++ cs ++ ys) = phrasingTextAll false xs ++
      phrasingTextAll (endsInTick false (phrasingTextAll false xs)) (cs ++ ys) := by
    rw [List.append_assoc, phrasingTextAll_append]
  have hrest : phrasingTextAll false (cs ++ ys) = phrasingTextAll false cs ++
      phrasingTextAll (endsInTick false (phrasingTextAll false cs)) ys :=
    phrasingTextAll_append false cs ys
  simp only [unmodelledText, closedLine_of_not_wholeLines hxs, hinner] at heq
  rw [hphrasing] at heq
  by_cases hclosed : WholeLines (phrasingTextAll false xs ++ '\n' :: phrasingTextAll false cs)
  · have hlast : endsInTick false (phrasingTextAll false xs ++ '\n' :: phrasingTextAll false cs) =
        endsInTick false (phrasingTextAll false cs) := by
      rw [List.append_cons, endsInTick_append, endsInTick_append]
      rfl
    rw [closedLine_of_wholeLines hclosed, hlast, List.append_assoc, List.cons_append,
      ← hrest] at heq
    exact newline_cons_ne (le_refl _) _ (List.append_cancel_left heq)
  · rw [closedLine_of_not_wholeLines hclosed, endsInTick_append, List.append_assoc,
      List.append_assoc, List.cons_append] at heq
    refine newline_cons_ne ?_ _ (List.append_cancel_left heq)
    have hspace := (spacedBy_tick (endsInTick false (phrasingTextAll false cs)) ys).length_le
    rw [hrest, List.length_append, List.length_append]
    exact Nat.add_le_add_left hspace _

/-- Against the text with the children in its place. -/
theorem unmodelledText_eq_iff (xs cs ys : List Node) :
    unmodelledText xs cs ys = phrasingTextAll false (xs ++ cs ++ ys) ↔
      WholeLines (phrasingTextAll false xs) ∧ WholeLines (phrasingTextAll false (xs ++ cs)) := by
  by_cases hxs : WholeLines (phrasingTextAll false xs)
  · rw [unmodelledText_of_wholeLines hxs, phrasingTextAll_append false (xs ++ cs)]
    constructor
    · intro heq
      refine ⟨hxs, ?_⟩
      by_contra hcs
      rw [closedLine_of_not_wholeLines hcs, endsInTick_append, List.append_assoc] at heq
      exact newline_cons_ne (le_refl _) _ (List.append_cancel_left heq)
    · rintro ⟨-, hcs⟩
      rw [closedLine_of_wholeLines hcs]
  · constructor
    · intro heq
      exact absurd heq (unmodelledText_ne hxs)
    · rintro ⟨hwhole, -⟩
      exact absurd hwhole hxs

/-- The same for what stands on a page, when a line starts there. -/
theorem page_unmodelled_eq_iff {d : Draft} (hd : d.lineStart = true)
    (htick : d.endsWith '`' = false) (h : ∀ n ∈ xs ++ cs ++ ys, n.Everywhere (isInline · = true))
    (hne : cs ≠ []) (name : String) (fields : Json.Fields) :
    (writeInlines (xs ++ [.parent (.other name fields) cs] ++ ys) d).page =
        (writeInlines (xs ++ cs ++ ys) d).page ↔
      WholeLines (phrasingTextAll false xs) ∧ WholeLines (phrasingTextAll false (xs ++ cs)) := by
  have hphrasing := adds_writeInlines (xs ++ cs ++ ys) h d
  rw [List.forall_mem_append, List.forall_mem_append] at h
  obtain ⟨⟨hxs, hcs⟩, hys⟩ := h
  have hbefore := adds_writeInlines xs hxs d
  have hnode := adds_unmodelled hbefore hd hcs hne name fields
  have hrest := adds_writeInlines ys hys
    (writeNode (.parent (.other name fields) cs) (writeInlines xs d))
  rw [hnode.endsWith_tick] at hrest
  have hunmodelled := hnode.trans hrest
  rw [htick] at hphrasing hunmodelled
  rw [writeInlines_append, writeInlines_append, writeInlines, writeInlines, hunmodelled.page,
    hphrasing.page, List.append_left_inj, List.reverse_inj]
  exact unmodelledText_eq_iff xs cs ys

/-! Paragraphs and headings. -/

/-- The draft behind the hashes of a heading. -/
def headingStart (level : UInt8) (target : Target) : Draft :=
  ((({} : Draft).target target.label).newline).push
    (List.replicate (max 1 (min level.toNat 6)) '#' ++ [' '])

theorem draftOf_heading (separators : Bool) (level : UInt8) (target : Target) (ns : List Node) :
    draftOf separators [.parent (.heading level target) ns] =
      ((writeInlines ns (headingStart level target)).push ['\n']).atLineStart := by
  rw [draftOf_singleton rfl rfl, writeNode]
  rfl

theorem lineStart_headingStart (level : UInt8) (target : Target) :
    (headingStart level target).lineStart = true := by
  cases hlabel : target.label <;> simp [headingStart, hlabel, Draft.target, Draft.block,
    Draft.newline, Draft.push, Draft.atLineStart]

theorem endsWith_headingStart (level : UInt8) (target : Target) :
    (headingStart level target).endsWith '`' = false := by
  rw [endsWith_eq, headingStart, Draft.push, List.reverse_append]
  rfl

/-- A node of an unknown kind is written as its children in their place exactly if the phrasing
content before it and that up to its end make up whole lines. -/
theorem write_unmodelled_eq_iff (h : ∀ n ∈ xs ++ cs ++ ys, n.Everywhere (isInline · = true))
    (hne : cs ≠ []) (separators : Bool) (name : String) (fields : Json.Fields) :
    (write separators [.paragraph (xs ++ [.parent (.other name fields) cs] ++ ys)] =
        write separators [.paragraph (xs ++ cs ++ ys)] ↔
      WholeLines (phrasingTextAll false xs) ∧ WholeLines (phrasingTextAll false (xs ++ cs))) ∧
    ∀ level target,
      (write separators [.parent (.heading level target)
            (xs ++ [.parent (.other name fields) cs] ++ ys)] =
          write separators [.parent (.heading level target) (xs ++ cs ++ ys)] ↔
        WholeLines (phrasingTextAll false xs) ∧ WholeLines (phrasingTextAll false (xs ++ cs))) := by
  constructor
  · have hpage := page_unmodelled_eq_iff (d := {}) rfl rfl h hne name fields
    rw [← hpage, write, write, draftOf_paragraph, draftOf_paragraph, String.ofList_inj,
      List.reverse_inj]
    exact List.append_right_inj ['\n']
  · intro level target
    have hpage := page_unmodelled_eq_iff (lineStart_headingStart level target)
      (endsWith_headingStart level target) h hne name fields
    rw [← hpage, write, write, draftOf_heading, draftOf_heading, String.ofList_inj,
      List.reverse_inj]
    exact List.append_right_inj ['\n']

/-- Behind a hard break and with one at its end, a node of an unknown kind is as good as its
children. -/
theorem write_unmodelled_betweenBreaks :
    let xs : List Node := [.text "H", .leaf .lineBreak]
    let cs : List Node := [.emphasis [.text "2"], .leaf .lineBreak]
    let ys : List Node := [.leaf (.inlineCode "O")]
    ((∀ n ∈ xs ++ cs ++ ys, n.Everywhere (isInline · = true)) ∧ cs ≠ []) ∧
      write true [.paragraph (xs ++ [.parent (.other "delete" .empty) cs] ++ ys)] =
        write true [.paragraph (xs ++ cs ++ ys)] := by
  intro xs cs ys
  have h : ∀ n ∈ xs ++ cs ++ ys, n.Everywhere (isInline · = true) := by
    simp [xs, cs, ys, Node.text, Node.emphasis, isInline]
  have hne : cs ≠ [] := List.cons_ne_nil _ _
  refine ⟨⟨h, hne⟩, ((write_unmodelled_eq_iff h hne true "delete" .empty).1).mpr ⟨?_, ?_⟩⟩
  · exact .inr (by decide)
  · exact .inr (by decide)

/-- A subscript breaks the line that it stands in, and what follows it leaves a heading. -/
theorem write_subscript :
    let formula (n : Node) : List Node := [.text "H", n, .text "O"]
    let subscript : Node := .parent (.other "subscript" .empty) [.text "2"]
    (write true [.paragraph (formula subscript)] = "H\n2\nO\n" ∧
      write true [.paragraph (formula subscript)] ≠
        write true [.paragraph (formula (.text "2"))]) ∧
    write true [.parent (.heading 1 {}) (formula subscript)] = "# H\n2\nO\n" ∧
      write true [.parent (.heading 1 {}) (formula subscript)] ≠
        write true [.parent (.heading 1 {}) (formula (.text "2"))] := by
  decide

end MystNotebook.Markdown
