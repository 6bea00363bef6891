import MystNotebook.Markdown.Write
import MystNotebook.Proofs.TextParts

/-! Words in the pieces of Markdown. A word has no blank and none of the characters that are
escaped, so it stays in one piece when a text is trimmed, cut into lines, indented or put into a
table cell; and what stands on the page of a draft stays there. -/
namespace MystNotebook

namespace Text

/-- Without blanks, bars, parentheses and angle brackets. -/
def IsWord (w : List Char) : Prop :=
  ∀ c ∈ w, isBlank c = false ∧ c ∉ ['|', '(', ')', '<', '>']

variable {w s : List Char}

theorem IsWord.not_mem (hw : IsWord w) {c : Char}
    (hc : isBlank c = true ∨ c ∈ ['|', '(', ')', '<', '>']) : c ∉ w := by
  intro hmem
  obtain ⟨hblank, hmark⟩ := hw c hmem
  rcases hc with hc | hc
  · rw [hblank] at hc
    cases hc
  · exact hmark hc

theorem IsWord.newline_not_mem (hw : IsWord w) : '\n' ∉ w := hw.not_mem (.inl (by decide))

theorem infix_dropEndWhile {p : Char → Bool} (hw : ∀ c ∈ w, p c = false) (h : w <:+: s) :
    w <:+: dropEndWhile p s := by
  rcases List.eq_nil_or_concat w with rfl | ⟨v, x, rfl⟩
  · exact List.nil_infix
  · rw [List.concat_eq_append] at hw h ⊢
    exact concat_infix_dropEndWhile (hw x (by simp)) h

theorem infix_dropWhile {p : Char → Bool} (hw : ∀ c ∈ w, p c = false) (h : w <:+: s) :
    w <:+: s.dropWhile p := by
  obtain ⟨a, b, rfl⟩ := h
  cases w with
  | nil => exact List.nil_infix
  | cons x v =>
    have hx : ¬ p x = true := by simp [hw x List.mem_cons_self]
    rw [List.append_assoc, List.dropWhile_append]
    split
    · rw [List.cons_append, List.dropWhile_cons_of_neg hx]
      exact (List.prefix_append (x :: v) b).isInfix
    · exact ⟨a.dropWhile p, b, List.append_assoc _ _ _⟩

theorem IsWord.infix_trim (hw : IsWord w) (h : w <:+: s) : w <:+: trim s :=
  infix_dropEndWhile (fun c hc => (hw c hc).1) (infix_dropWhile (fun c hc => (hw c hc).1) h)

theorem IsWord.infix_trimEnd (hw : IsWord w) (h : w <:+: s) : w <:+: trimEnd s :=
  infix_dropEndWhile (fun c hc => (hw c hc).1) h

theorem infix_replace {c : Char} (hc : c ∉ w) (h : w <:+: s) (image : List Char) :
    w <:+: replace c image s := by
  obtain ⟨a, b, rfl⟩ := h
  have hself : replace c image w = w := by
    have hsame : ∀ x ∈ w, (if x = c then image else [x]) = [x] := by
      intro x hx
      refine if_neg ?_
      rintro rfl
      exact hc hx
    rw [replace, List.flatMap_congr hsame]
    exact List.flatMap_singleton' w
  rw [replace, List.flatMap_append, List.flatMap_append, ← replace, ← replace, ← replace, hself]
  exact List.infix_append _ _ _

/-- The first line goes on behind a start without newlines. -/
theorem exists_pieces_append (hw : '\n' ∉ w) (t : List Char) :
    ∃ line rest, pieces t = line :: rest ∧ pieces (w ++ t) = (w ++ line) :: rest := by
  obtain ⟨line, rest, ht, -⟩ := pieces_cases t
  refine ⟨line, rest, ht, ?_⟩
  induction w with
  | nil => exact ht
  | cons c w ih =>
    rw [List.mem_cons, not_or] at hw
    rw [List.cons_append, pieces, if_neg (Ne.symm hw.1), ih hw.2]
    rfl

theorem exists_mem_pieces (hw : '\n' ∉ w) (h : w <:+: s) : ∃ line ∈ pieces s, w <:+: line := by
  obtain ⟨a, b, rfl⟩ := h
  induction a with
  | nil =>
    obtain ⟨line, rest, -, heq⟩ := exists_pieces_append hw b
    rw [List.nil_append, heq]
    exact ⟨w ++ line, List.mem_cons_self, (List.prefix_append w line).isInfix⟩
  | cons c a ih =>
    obtain ⟨line, hline, hinfix⟩ := ih
    rw [List.cons_append, List.cons_append, pieces]
    split
    · exact ⟨line, List.mem_cons_of_mem _ hline, hinfix⟩
    · split
      next heq =>
        rw [heq] at hline
        cases hline
      next first rest heq =>
        rw [heq] at hline
        rcases List.mem_cons.mp hline with rfl | hline
        · exact ⟨c :: line, List.mem_cons_self, hinfix.trans (List.suffix_cons c line).isInfix⟩
        · exact ⟨line, List.mem_cons_of_mem _ hline, hinfix⟩

end Text

namespace Markdown
open Text

variable {w s : List Char}

/-! Layout. -/

theorem exists_mem_bodyLines (hw : IsWord w) (h : w <:+: s) :
    ∃ line ∈ bodyLines s, w <:+: line := by
  refine exists_mem_pieces hw.newline_not_mem (infix_dropEndWhile (fun c hc => ?_) h)
  rw [beq_eq_false_iff_ne]
  rintro rfl
  exact hw.newline_not_mem hc

theorem infix_quoteText (hw : IsWord w) (h : w <:+: s) : w <:+: quoteText s := by
  obtain ⟨line, hline, hinfix⟩ := exists_mem_bodyLines hw h
  refine List.IsInfix.trans ?_ (infix_flatMap_of_mem hline)
  unfold quoteLine
  split
  next hempty =>
    rw [List.isEmpty_iff.mp hempty, List.infix_nil] at hinfix
    exact hinfix ▸ List.nil_infix
  next => exact hinfix.trans (List.infix_append _ _ _)

theorem infix_indentedLine {line : List Char} (h : w <:+: line) (width : Nat) :
    w <:+: indentedLine width line := by
  unfold indentedLine
  split
  next hempty =>
    rw [List.isEmpty_iff.mp hempty, List.infix_nil] at h
    exact h ▸ List.nil_infix
  next => exact h.trans (List.infix_append _ _ _)

/-- A first line behind a mark and the others below it, each indented. -/
theorem infix_hanging {start first : List Char} {rest : List (List Char)} {line : List Char}
    (hline : line ∈ first :: rest) (h : w <:+: line) (hfirst : first <:+: start) (width : Nat) :
    w <:+: start ++ rest.flatMap (indentedLine width) := by
  rcases List.mem_cons.mp hline with rfl | hline
  · exact (h.trans hfirst).trans (List.prefix_append _ _).isInfix
  · have hrest := (infix_indentedLine h width).trans (infix_flatMap_of_mem hline)
    exact hrest.trans (List.suffix_append _ _).isInfix

theorem infix_itemText (hw : IsWord w) (h : w <:+: s) (marker : List Char) :
    w <:+: itemText marker s := by
  obtain ⟨line, hline, hinfix⟩ := exists_mem_bodyLines hw h
  unfold itemText
  split
  next heq =>
    rw [heq] at hline
    cases hline
  next first rest heq =>
    rw [heq] at hline
    refine infix_hanging hline hinfix ?_ marker.length
    split
    next hempty => exact List.isEmpty_iff.mp hempty ▸ List.nil_infix
    next => exact ⟨trimEnd marker ++ [' '], ['\n'], by simp⟩

theorem infix_descriptionText (hw : IsWord w) (h : w <:+: s) : w <:+: descriptionText s := by
  obtain ⟨line, hline, hinfix⟩ := exists_mem_bodyLines hw h
  unfold descriptionText
  split
  next heq =>
    rw [heq] at hline
    cases hline
  next first rest heq =>
    rw [heq] at hline
    exact infix_hanging hline hinfix (List.infix_append _ _ _) 2

theorem infix_cellText (hw : IsWord w) (h : w <:+: s) : w <:+: cellText s :=
  infix_replace (hw.not_mem (.inr (by decide)))
    (infix_replace hw.newline_not_mem (hw.infix_trimEnd h) _) _

/-- Nothing in a word needs a backslash in a url. -/
theorem infix_destination (hw : IsWord w) : w <:+: destination w := by
  have hself : w <:+: w := List.infix_refl w
  unfold destination schemedDestination
  split
  · have hangles : w <:+: escapeAngles w :=
      infix_replace (hw.not_mem (.inr (by decide)))
        (infix_replace (hw.not_mem (.inr (by decide))) hself _) _
    exact hangles.trans (List.infix_append _ _ _)
  · have hparentheses : w <:+: escapeParentheses w :=
      infix_replace (hw.not_mem (.inr (by decide)))
        (infix_replace (hw.not_mem (.inr (by decide))) hself _) _
    exact hparentheses.trans (List.suffix_append _ _).isInfix

theorem infix_imageText {i : Image} (hw : IsWord i.url.toList) : i.url.toList <:+: imageText i := by
  have hend : i.url.toList <:+: linkEnd i.url.toList i.title := by
    rw [linkEnd, List.append_assoc]
    exact (infix_destination hw).trans (List.infix_append _ _ _)
  exact hend.trans (List.suffix_append _ _).isInfix

theorem infix_directiveStart {argument : String} (h : w <:+: argument.toList) (fence : List Char)
    (name : String) (options : List (String × String)) :
    w <:+: directiveStart fence name (some argument) options := by
  by_cases hempty : argument.isEmpty = true
  · rw [String.isEmpty_iff] at hempty
    rw [hempty, String.toList_empty, List.infix_nil] at h
    exact h ▸ List.nil_infix
  · have hstart : directiveStart fence name (some argument) options =
        (fence ++ ['\x7b'] ++ name.toList ++ ['\x7d', ' ']) ++ argument.toList ++
          (['\n'] ++ optionLines options) := by
      simp [directiveStart, hempty]
    rw [hstart]
    exact h.trans (List.infix_append _ _ _)

theorem infix_optionLines {options : List (String × String)} {key value : String}
    (hmem : (key, value) ∈ options) (h : w <:+: value.toList) : w <:+: optionLines options := by
  have hline : w <:+: optionLine key value := by
    by_cases hempty : value.isEmpty = true
    · rw [String.isEmpty_iff] at hempty
      rw [hempty, String.toList_empty, List.infix_nil] at h
      exact h ▸ List.nil_infix
    · have hparts : optionLine key value =
          ([':'] ++ key.toList ++ [':', ' ']) ++ value.toList ++ ['\n'] := by
        simp [optionLine, hempty]
      rw [hparts]
      exact h.trans (List.infix_append _ _ _)
  obtain ⟨front, back, rfl⟩ := List.append_of_mem hmem
  have hlines : optionLines (front ++ (key, value) :: back) =
      optionLines front ++ optionLine key value ++ optionLines back := by
    simp [optionLines]
  rw [hlines]
  exact hline.trans (List.infix_append _ _ _)

theorem infix_fencedText {options : List (String × String)} (h : w <:+: optionLines options)
    (info value : List Char) : w <:+: fencedText info options value := by
  have hfenced : fencedText info options value =
      (backtickFence value ++ info ++ ['\n']) ++ optionLines options ++
        (closedLine value ++ backtickFence value ++ ['\n']) := by
    simp [fencedText]
  rw [hfenced]
  exact h.trans (List.infix_append _ _ _)

/-! Drafts. -/

namespace Draft

/-- The word stands on the page. -/
def Has (w : List Char) (d : Draft) : Prop := w <:+: d.page.reverse

variable {d d' : Draft}

theorem has_push (h : d.Has w ∨ w <:+: s) : (d.push s).Has w := by
  have hpage : (d.push s).page.reverse = d.page.reverse ++ s := by simp [push]
  rw [Has, hpage]
  rcases h with h | h
  · exact h.trans (List.prefix_append _ _).isInfix
  · exact h.trans (List.suffix_append _ _).isInfix

theorem has_inline (h : d.Has w ∨ w <:+: s) : (d.inline s).Has w := by
  unfold inline
  split
  next hempty =>
    rcases h with h | h
    · exact h
    · rw [List.isEmpty_iff.mp hempty, List.infix_nil] at h
      exact h ▸ List.nil_infix
  next => exact has_push h

namespace Has

theorem of_page (h : d.Has w) (hpage : d'.page = d.page) : d'.Has w := by
  rwa [Has, hpage]

theorem push (h : d.Has w) (s : List Char) : (d.push s).Has w := has_push (.inl h)

theorem inline (h : d.Has w) (s : List Char) : (d.inline s).Has w := has_inline (.inl h)

theorem newline (h : d.Has w) : d.newline.Has w := by
  unfold Draft.newline
  split
  · exact h.push ['\n']
  · exact h

theorem blankLine (h : d.Has w) : d.blankLine.Has w := by
  simp only [Draft.blankLine]
  split
  · exact h.newline.push ['\n']
  · exact h.newline

/-- What stands between blocks. -/
theorem separated (h : d.Has w) (started : Bool) :
    (if started then d.blankLine else d).Has w := by
  split
  · exact h.blankLine
  · exact h

theorem target (h : d.Has w) (label : Option String) : (d.target label).Has w := by
  cases label with
  | none => exact h
  | some label => exact h.newline.push (targetText label)

theorem inlineCode (h : d.Has w) (value : List Char) : (d.inlineCode value).Has w := by
  have hspaced : (if d.endsWith '`' then d.push [' '] else d).Has w := by
    split
    · exact h.push [' ']
    · exact h
  simp only [Draft.inlineCode]
  split <;> exact hspaced.inline _

end Has

theorem has_block (h : d.Has w ∨ w <:+: s) : (d.block s).Has w :=
  has_push (h.imp_left Has.newline)

theorem Has.block (h : d.Has w) (s : List Char) : (d.block s).Has w := has_block (.inl h)

end Draft

open Draft

/-- The word stands on the page afterwards if it stood there before, or else if `P` says so. -/
def Carries (w : List Char) (P : Prop) (write : Draft → Draft) : Prop :=
  ∀ d : Draft, d.Has w ∨ P → (write d).Has w

namespace Carries
variable {P Q : Prop} {write write' : Draft → Draft}

theorem has (h : Carries w P write) {d : Draft} (hd : d.Has w) : (write d).Has w := h d (.inl hd)

theorem mono (h : Carries w P write) (hPQ : Q → P) : Carries w Q write :=
  fun d hd => h d (hd.imp_right hPQ)

theorem comp (h : Carries w P write) (h' : Carries w Q write') :
    Carries w (P ∨ Q) fun d => write' (write d) := by
  intro d hd
  rcases hd with hd | hP | hQ
  · exact h'.has (h.has hd)
  · exact h'.has (h d (.inr hP))
  · exact h' _ (.inr hQ)

/-- A page of its own starts empty, so the word comes from what is captured. -/
theorem capture (h : Carries w P write) (hP : P) (d : Draft) : w <:+: (d.capture write).1 :=
  h { d with before := d.recent, page := [], lineStart := true } (.inr hP)

theorem captureLine (hw : IsWord w) (h : Carries w P write) (hP : P) (d : Draft) :
    w <:+: (d.captureLine write).1 :=
  infix_replace hw.newline_not_mem (hw.infix_trim (h.capture hP d)) _

theorem inLine (h : Carries w P write) : Carries w P fun d => (write d.newline).newline :=
  fun _ hd => (h _ (hd.imp_left Has.newline)).newline

theorem flow {blocks : Draft → Draft} (h : Carries w P write) (hblocks : Carries w P blocks)
    (phrasing : Bool) : Carries w P (·.flow phrasing write blocks) := by
  intro d hd
  unfold Draft.flow
  split
  · exact h.inLine d hd
  · exact hblocks d hd

theorem wrapped (h : Carries w P write) (marker closing : List Char) :
    Carries w P fun d => (write (d.inline marker)).inline closing :=
  fun _ hd => (h _ (hd.imp_left fun hd => hd.inline marker)).inline closing

/-- The word of a directive stands in its argument or in its body. -/
theorem directive (h : Carries w P write) (depth : Nat) (name : String) {argument : Option String}
    (options : List (String × String)) {d : Draft}
    (hd : d.Has w ∨ (∃ a ∈ argument, w <:+: a.toList) ∨ P) :
    (d.directive depth name argument options write).Has w := by
  have hstart (hd : d.Has w ∨ ∃ a ∈ argument, w <:+: a.toList) :
      (d.block (directiveStart (colonFence depth) name argument options)).Has w := by
    refine has_block (hd.imp_right ?_)
    rintro ⟨a, rfl, ha⟩
    exact infix_directiveStart ha _ _ _
  exact (h _ ((or_assoc.mpr hd).imp_left hstart)).block _

end Carries
end Markdown
end MystNotebook
