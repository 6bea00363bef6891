import MystNotebook.Markdown.Write
import MystNotebook.Proofs.DirectiveParts
import MystNotebook.Proofs.TextParts

/-! Where lines start. The writer keeps a flag for the start of a line and texts are added past it,
but each node leaves it right if it finds it right, so what is written always ends in whole
lines. -/
namespace MystNotebook.Markdown
open Draft

namespace Draft

/-- Nothing stands on the running line. -/
def Fresh (d : Draft) : Prop := d.page = [] ∨ d.page.head? = some '\n'

/-- A line starts where the draft says that one does. -/
def Tidy (d : Draft) : Prop := d.lineStart = true → d.Fresh

variable {d : Draft}

theorem Fresh.tidy (h : d.Fresh) : d.Tidy := fun _ => h

theorem Fresh.atLineStart (h : d.Fresh) : d.atLineStart.Fresh := h

theorem Tidy.report (h : d.Tidy) (nodeType message : String) :
    (d.report nodeType message).Tidy := h

theorem fresh_push {s : List Char} (h : s.getLast? = some '\n') (d : Draft) : (d.push s).Fresh := by
  right
  rw [push, List.head?_append, List.head?_reverse, h]
  rfl

theorem fresh_newline (h : d.Tidy) : d.newline.Fresh := by
  unfold newline
  split
  · exact fresh_push rfl d
  next hopen =>
    cases hstart : d.lineStart with
    | true => exact h hstart
    | false =>
      have hempty : d.isEmpty = true := by simpa [hstart] using hopen
      rw [isEmpty, Bool.and_eq_true, List.isEmpty_iff] at hempty
      exact .inl hempty.1

theorem fresh_blankLine (h : d.Tidy) : d.blankLine.Fresh := by
  simp only [blankLine]
  split
  · exact fresh_push rfl _
  · exact fresh_newline h

/-- A phrase sets the flag by its last character, whatever the flag was before. -/
theorem tidy_inline_of_ne_nil {s : List Char} (hs : s ≠ []) (d : Draft) : (d.inline s).Tidy := by
  unfold inline
  rw [List.isEmpty_eq_false_iff.mpr hs, if_neg Bool.false_ne_true]
  intro hstart
  exact fresh_push (beq_iff_eq.mp hstart) d

theorem tidy_inline (h : d.Tidy) (s : List Char) : (d.inline s).Tidy := by
  by_cases hs : s = []
  · rw [hs]
    exact h
  · exact tidy_inline_of_ne_nil hs d

theorem fresh_block {s : List Char} (h : s.getLast? = some '\n') (d : Draft) :
    (d.block s).Fresh :=
  fresh_push h d.newline

theorem tidy_target (h : d.Tidy) (label : Option String) : (d.target label).Tidy := by
  cases label with
  | none => exact h
  | some label =>
    have hlast : (targetText label).getLast? = some '\n' := by
      rw [targetText, List.getLast?_append]
      rfl
    exact (fresh_block hlast d).tidy

theorem tidy_inlineCode (d : Draft) (value : List Char) : (d.inlineCode value).Tidy := by
  simp only [inlineCode]
  split
  · exact tidy_inline_of_ne_nil (by simp) _
  · exact tidy_inline_of_ne_nil (by simp) _

theorem fresh_directive (d : Draft) (depth : Nat) (name : String) (argument : Option String)
    (options : List (String × String)) (body : Draft → Draft) :
    (d.directive depth name argument options body).Fresh := by
  refine fresh_block ?_ _
  rw [List.getLast?_append]
  rfl

theorem tidy_flow (h : d.Tidy) {inlines blocks : Draft → Draft}
    (hinlines : ∀ e : Draft, e.Tidy → (inlines e).Tidy)
    (hblocks : ∀ e : Draft, e.Tidy → (blocks e).Tidy) (phrasing : Bool) :
    (d.flow phrasing inlines blocks).Tidy := by
  unfold flow
  split
  · exact (fresh_newline (hinlines _ (fresh_newline h).tidy)).tidy
  · exact hblocks d h

end Draft

/-! Texts that are whole lines. -/

theorem getLast?_flatMap {α : Type} {f : α → List Char} {l : List α}
    (h : ∀ a ∈ l, (f a).getLast? = some '\n') (hl : l ≠ []) :
    (l.flatMap f).getLast? = some '\n' := by
  obtain ⟨l, a, rfl⟩ := (List.eq_nil_or_concat l).resolve_left hl
  rw [List.concat_eq_append] at h ⊢
  rw [List.flatMap_append, List.flatMap_singleton, List.getLast?_append, h a (by simp)]
  rfl

theorem bodyLines_ne_nil (body : List Char) : bodyLines body ≠ [] := by
  obtain ⟨line, rest, hlines, -⟩ := Text.pieces_cases (Text.trimNewlines body)
  rw [bodyLines, hlines]
  exact List.cons_ne_nil line rest

theorem getLast?_quoteText (body : List Char) : (quoteText body).getLast? = some '\n' := by
  refine getLast?_flatMap (fun line _ => ?_) (bodyLines_ne_nil body)
  unfold quoteLine
  split
  · rfl
  · exact List.getLast?_concat

/-- The lines below the first leave the end of the text in a newline. -/
theorem getLast?_append_indentedLines {s : List Char} (hs : s.getLast? = some '\n') (width : Nat)
    (lines : List (List Char)) :
    (s ++ lines.flatMap (indentedLine width)).getLast? = some '\n' := by
  by_cases hlines : lines = []
  · rw [hlines, List.flatMap_nil, List.append_nil]
    exact hs
  · have hlast := getLast?_flatMap (f := indentedLine width) (l := lines) (fun line _ => by
      unfold indentedLine
      split
      · rfl
      · exact List.getLast?_concat) hlines
    rw [List.getLast?_append, hlast]
    rfl

theorem getLast?_itemText (marker body : List Char) :
    (itemText marker body).getLast? = some '\n' := by
  unfold itemText
  split
  next hnil => exact absurd hnil (bodyLines_ne_nil body)
  next => exact getLast?_append_indentedLines List.getLast?_concat _ _

theorem getLast?_descriptionText (body : List Char) :
    (descriptionText body).getLast? = some '\n' := by
  unfold descriptionText
  split
  next hnil => exact absurd hnil (bodyLines_ne_nil body)
  next => exact getLast?_append_indentedLines List.getLast?_concat _ _

theorem getLast?_fencedText (info : List Char) (options : List (String × String))
    (value : List Char) : (fencedText info options value).getLast? = some '\n' :=
  List.getLast?_concat

theorem getLast?_mathText (m : Math) : (mathText m).getLast? = some '\n' := by
  unfold mathText
  split
  · exact getLast?_fencedText _ _ _
  · rw [List.getLast?_append]
    rfl

/-- A comment without lines leaves the draft at the start of a line as well. -/
theorem fresh_comment {d : Draft} (h : d.Tidy) (value : List Char) :
    (d.block (commentText value)).Fresh := by
  by_cases hlines : Text.lines value = []
  · have hempty : commentText value = [] := by
      rw [commentText, hlines]
      rfl
    rw [hempty]
    exact Draft.fresh_newline h
  · exact Draft.fresh_block (getLast?_flatMap (fun _ _ => List.getLast?_concat) hlines) d

/-! Lists that are written from captured texts. -/

theorem fresh_writeItems (ordered spread : Bool) (number : UInt32) {ns : List Node} {d : Draft}
    (h : d.Fresh) : (writeItems ordered spread number ns d).Fresh := by
  induction ns generalizing number d with
  | nil =>
    rw [writeItems]
    exact h
  | cons n ns ih =>
    rw [writeItems.eq_def]
    split
    next heq => cases heq
    next heq =>
      cases heq
      refine ih _ ?_
      split
      · exact fresh_push rfl _
      · exact fresh_push (getLast?_itemText _ _) _
    next heq =>
      cases heq
      exact ih _ h

theorem fresh_writeRows (columns : Nat) (align : List (Option Align)) (first : Bool)
    {ns : List Node} {d : Draft} (h : d.Fresh) : (writeRows columns align first ns d).Fresh := by
  induction ns generalizing first d with
  | nil =>
    rw [writeRows]
    exact h
  | cons n ns ih =>
    rw [writeRows.eq_def]
    split
    next heq => cases heq
    next heq =>
      cases heq
      refine ih _ ?_
      split
      · exact fresh_push List.getLast?_concat _
      · exact fresh_push List.getLast?_concat _
    next heq =>
      cases heq
      exact ih _ h

theorem fresh_writeDefinitions (started : Bool) {ns : List Node} {d : Draft} (h : d.Fresh) :
    (writeDefinitions started ns d).Fresh := by
  induction ns generalizing started d with
  | nil =>
    rw [writeDefinitions]
    exact h
  | cons n ns ih =>
    rw [writeDefinitions.eq_def]
    split
    next heq => cases heq
    next heq =>
      cases heq
      exact ih _ (fresh_push List.getLast?_concat _)
    next heq =>
      cases heq
      exact ih _ (fresh_push (getLast?_descriptionText _) _)
    next heq =>
      cases heq
      exact ih _ h

/-! Nodes. -/

theorem tidy_leaf (l : Leaf) {d : Draft} (h : d.Tidy) : (d.leaf l).Tidy := by
  cases l with
  | thematicBreak => exact (fresh_block rfl d).tidy
  | code c => exact (fresh_block (getLast?_fencedText _ _ _) d).tidy
  | lineBreak => exact (fresh_push rfl d).atLineStart.tidy
  | math m => exact (fresh_block (getLast?_mathText m) d).tidy
  | inlineCode value => exact tidy_inlineCode d _
  | target label => exact tidy_target h _
  | comment value => exact (fresh_comment h _).tidy
  | text | image | inlineMath | html => exact tidy_inline h _

theorem tidy_link (d : Draft) (url : List Char) (title : Option String)
    (inside : Draft → Draft) : (d.link url title inside).Tidy :=
  tidy_inline_of_ne_nil (by simp [linkEnd]) _

/-- What is written for the children leaves the flag right. -/
structure ListTidy (ns : List Node) : Prop where
  blocks : ∀ skip started (d : Draft), d.Tidy → (writeBlocks skip started ns d).Tidy
  inlines : ∀ d : Draft, d.Tidy → (writeInlines ns d).Tidy

theorem tidy_parent (p : Parent) {cs : List Node} (hw : ListTidy cs) {d : Draft} (h : d.Tidy) :
    (writeNode (.parent p cs) d).Tidy := by
  by_cases hdirective : writesDirective (.parent p cs) = true
  · obtain ⟨d', -, hwritten⟩ := writeNode_directive hdirective d
    rw [hwritten]
    exact (fresh_directive _ _ _ _ _ _).tidy
  cases p with
  | block kind data target =>
    simp only [writeNode]
    exact hw.blocks nowhere false _ (tidy_target h _)
  | heading | paragraph =>
    simp only [writeNode]
    exact (fresh_push rfl _).atLineStart.tidy
  | blockquote =>
    simp only [writeNode]
    exact (fresh_push (getLast?_quoteText _) _).atLineStart.tidy
  | list =>
    simp only [writeNode]
    exact (fresh_writeItems _ _ _ (fresh_newline h)).atLineStart.tidy
  | table =>
    simp only [writeNode]
    split
    · exact (fresh_writeRows _ _ _ (fresh_newline h)).atLineStart.tidy
    · exact (fresh_newline h).tidy
  | definitionList =>
    simp only [writeNode]
    exact (fresh_writeDefinitions _ (fresh_newline h)).atLineStart.tidy
  | tableRow | tableCell | definitionTerm | definitionDescription =>
    simp only [writeNode]
    exact h
  | emphasis | strong =>
    simp only [writeNode]
    exact tidy_inline_of_ne_nil (by simp) _
  | link url title =>
    simp only [writeNode]
    exact tidy_link d _ _ _
  | crossReference =>
    simp only [writeNode]
    split
    · exact hw.inlines _ h
    · exact tidy_link d _ _ _
  | listItem | inclusion =>
    simp only [writeNode]
    exact hw.blocks nowhere false d h
  | admonitionTitle | caption | legend | cardTitle | header | footer | summary =>
    simp only [writeNode]
    exact tidy_flow h hw.inlines (hw.blocks nowhere false) _
  | container =>
    simp only [writeNode]
    split
    · exact (fresh_directive _ _ _ _ _ _).tidy
    · exact (fresh_directive _ _ _ _ _ _).tidy
    · exact (fresh_block (getLast?_fencedText _ _ _) _).tidy
    · exact hw.blocks nowhere false d h
  | role =>
    simp only [writeNode]
    split
    · exact tidy_inlineCode _ _
    · exact hw.inlines d h
  | other =>
    simp only [writeNode]
    split
    · split
      · exact tidy_inline (h.report _ _) _
      · exact h
    · exact tidy_flow (h.report _ _) hw.inlines (hw.blocks nowhere false) _
  | _ => exact absurd rfl hdirective

theorem tidy_asBlock {n : Node} (hn : ∀ d : Draft, d.Tidy → (writeNode n d).Tidy) {d : Draft}
    (h : d.Tidy) : (d.asBlock n (writeNode n)).Tidy := by
  have hline : ((writeNode n d.newline).newline).Tidy :=
    (fresh_newline (hn _ (fresh_newline h).tidy)).tidy
  unfold asBlock
  split
  · split
    · exact (fresh_block List.getLast?_concat d).tidy
    · exact hline
  · split
    · exact hline
    · exact hn d h

mutual

theorem tidy_writeNode : (n : Node) → ∀ d : Draft, d.Tidy → (writeNode n d).Tidy
  | .leaf l, d, h => by
    rw [writeNode]
    exact tidy_leaf l h
  | .parent p cs, d, h => tidy_parent p (listTidy cs) h

theorem listTidy : (ns : List Node) → ListTidy ns
  | [] => by
    constructor
    · intro skip started d h
      rw [writeBlocks]
      exact h
    · intro d h
      rw [writeInlines]
      exact h
  | n :: ns => by
    have hns := listTidy ns
    have hn := tidy_writeNode n
    constructor
    · intro skip started d h
      rw [writeBlocks]
      split
      · exact hns.blocks skip started d h
      · refine hns.blocks skip true _ (tidy_asBlock hn ?_)
        split
        · exact (fresh_blankLine h).tidy
        · exact h
    · intro d h
      rw [writeInlines]
      exact hns.inlines _ (hn d h)

end

/-! Documents. -/

theorem fresh_blockBreak {d : Draft} (h : d.Fresh) (separators started : Bool) (n : Node) :
    (d.push (blockBreak separators started n)).Fresh := by
  have hnil : (d.push []).Fresh := h
  have hbreak : (d.push (if started && separators then "+++\n\n".toList else [])).Fresh := by
    split
    · exact fresh_push rfl d
    · exact hnil
  unfold blockBreak
  split
  · split
    · exact hbreak
    · refine fresh_push ?_ d
      rw [List.getLast?_append]
      rfl
  · exact hbreak
  · exact hnil

theorem tidy_writeTop (separators started : Bool) (ns : List Node) {d : Draft} (h : d.Tidy)
    (hstart : started = false → d.Fresh) : (writeTop separators started ns d).Tidy := by
  induction ns generalizing started d with
  | nil => exact h
  | cons n ns ih =>
    have hblank : (if started then d.blankLine else d).Fresh := by
      split
      · exact fresh_blankLine h
      next hfalse => exact hstart (by simpa using hfalse)
    have hbreak := fresh_blockBreak hblank separators started n
    rw [writeTop]
    exact ih true (tidy_asBlock (tidy_writeNode n) hbreak.tidy) (by simp)

/-- A document is written in whole lines. -/
theorem fresh_draftOf (separators : Bool) (ns : List Node) : (draftOf separators ns).Fresh := by
  have hempty : ({} : Draft).Fresh := .inl rfl
  exact fresh_newline (tidy_writeTop separators false ns hempty.tidy fun _ => hempty)

theorem toList_write (separators : Bool) (ns : List Node) :
    (write separators ns).toList = (draftOf separators ns).page.reverse :=
  String.toList_ofList

/-- Whatever the tree is, its text is empty or ends in a newline, also where the numbers of a list
start again at zero. -/
theorem write_eq_empty_or_newline (separators : Bool) (ns : List Node) :
    write separators ns = "" ∨ (write separators ns).toList.getLast? = some '\n' := by
  rcases fresh_draftOf separators ns with hempty | hnewline
  · left
    rw [← String.toList_eq_nil_iff, toList_write, hempty, List.reverse_nil]
  · right
    rw [toList_write, List.getLast?_reverse, hnewline]

example : write true [.parent (.list true (some 4294967295) false)
      [.parent (.listItem false) [.text "a"], .parent (.listItem false) [.text "b"]]] =
    "4294967295. a\n0. b\n" := by cbv

end MystNotebook.Markdown
