import Mathlib.Data.List.Induction
import Mathlib.Data.List.TakeWhile
import MystNotebook.Proofs.LaidOutRuns
import MystNotebook.Proofs.LineStarts

/-! How texts end. Two texts that differ may still end the same, down to the newlines behind their
last character, so that nobody who looks at their ends can tell them apart. A text that has been
laid out ends in a line that is not empty, whatever it was before. -/
namespace MystNotebook.Text

variable {s s' t : List Char}

def Newlines (s : List Char) : Prop := ∀ c ∈ s, c = '\n'

def Blanks (s : List Char) : Prop := ∀ c ∈ s, isBlank c = true

theorem newlines_nil : Newlines [] := by simp [Newlines]

theorem newlines_append : Newlines (s ++ t) ↔ Newlines s ∧ Newlines t := List.forall_mem_append

theorem blanks_append : Blanks (s ++ t) ↔ Blanks s ∧ Blanks t := List.forall_mem_append

theorem not_blanks : ¬ Blanks s ↔ ∃ c ∈ s, isBlank c = false := by simp [Blanks]

theorem Newlines.blanks (h : Newlines s) : Blanks s := by
  intro c hc
  rw [h c hc]
  rfl

theorem Newlines.eq_replicate (h : Newlines s) : s = List.replicate s.length '\n' :=
  List.eq_replicate_length.mpr h

theorem Newlines.getLast? (h : Newlines s) (hs : s ≠ []) : s.getLast? = some '\n' := by
  rw [List.getLast?_eq_some_getLast hs, h _ (List.getLast_mem hs)]

theorem Newlines.trimNewlines_eq_nil (h : Newlines s) : trimNewlines s = [] :=
  trimNewlines_append h []

/-- The last character that is no newline. -/
theorem exists_lastShown (h : ¬ Newlines s) : ∃ a x t, s = a ++ x :: t ∧ x ≠ '\n' ∧ Newlines t := by
  induction s using List.reverseRecOn with
  | nil => exact absurd newlines_nil h
  | append_singleton s c ih =>
    by_cases hc : c = '\n'
    · have hs : ¬ Newlines s := fun hs => h (newlines_append.mpr ⟨hs, by simpa [Newlines] using hc⟩)
      obtain ⟨a, x, t, rfl, hx, ht⟩ := ih hs
      refine ⟨a, x, t ++ [c], by simp, hx, newlines_append.mpr ⟨ht, ?_⟩⟩
      simpa [Newlines] using hc
    · exact ⟨s, c, [], rfl, hc, newlines_nil⟩

theorem trimNewlines_append_of_not_newlines {t : List Char} (h : ¬ Newlines t) (s : List Char) :
    trimNewlines (s ++ t) = s ++ trimNewlines t := by
  obtain ⟨a, x, n, rfl, hx, -⟩ := exists_lastShown h
  exact trimNewlines_append_of_mem (by simp) hx s

/-! Ends that look the same. -/

/-- Both texts have the same newlines at the end, and if there are none, the same last character. -/
def SameEnd (s s' : List Char) : Prop :=
  ∃ a a' x x' t, s = a ++ x :: t ∧ s' = a' ++ x' :: t ∧ x ≠ '\n' ∧ x' ≠ '\n' ∧ Newlines t ∧
    (t = [] → x = x')

theorem sameEnd_append (h : ¬ Newlines t) (s s' : List Char) : SameEnd (s ++ t) (s' ++ t) := by
  obtain ⟨a, x, n, rfl, hx, hn⟩ := exists_lastShown h
  exact ⟨s ++ a, s' ++ a, x, x, n, by simp, by simp, hx, hx, hn, fun _ => rfl⟩

theorem SameEnd.prepend (h : SameEnd s s') (u u' : List Char) : SameEnd (u ++ s) (u' ++ s') := by
  obtain ⟨a, a', x, x', t, rfl, rfl, hx, hx', ht, hsame⟩ := h
  exact ⟨u ++ a, u' ++ a', x, x', t, by simp, by simp, hx, hx', ht, hsame⟩

theorem SameEnd.append (h : SameEnd s s') (u : List Char) : SameEnd (s ++ u) (s' ++ u) := by
  by_cases hu : Newlines u
  · obtain ⟨a, a', x, x', t, rfl, rfl, hx, hx', ht, hsame⟩ := h
    refine ⟨a, a', x, x', t ++ u, by simp, by simp, hx, hx', newlines_append.mpr ⟨ht, hu⟩, ?_⟩
    exact fun hnil => hsame (List.append_eq_nil_iff.mp hnil).1
  · exact sameEnd_append hu s s'

theorem SameEnd.not_newlines (h : SameEnd s s') : ¬ Newlines s := by
  obtain ⟨a, -, x, -, t, rfl, -, hx, -⟩ := h
  exact fun hs => hx (hs x (by simp))

theorem SameEnd.symm (h : SameEnd s s') : SameEnd s' s := by
  obtain ⟨a, a', x, x', t, hs, hs', hx, hx', ht, hsame⟩ := h
  exact ⟨a', a, x', x, t, hs', hs, hx', hx, ht, fun hnil => (hsame hnil).symm⟩

/-- Texts that end the same have no newlines at the end to differ in. -/
theorem SameEnd.eq_of_trimNewlines (h : SameEnd s s') (htrim : trimNewlines s = trimNewlines s') :
    s = s' := by
  obtain ⟨a, a', x, x', t, rfl, rfl, hx, hx', ht, -⟩ := h
  rw [trimNewlines_append_cons hx, trimNewlines_append_cons hx', ht.trimNewlines_eq_nil] at htrim
  rw [List.append_cons, htrim, ← List.append_cons]

theorem SameEnd.head?_reverse_append (h : SameEnd s s') (r r' : List Char) :
    (s.reverse ++ r).head? = (s'.reverse ++ r').head? := by
  obtain ⟨a, a', x, x', t, rfl, rfl, -, -, -, hsame⟩ := h
  cases t using List.reverseRecOn with
  | nil => simp [hsame rfl]
  | append_singleton t c => simp

theorem SameEnd.take_reverse_append (h : SameEnd s s') (r r' : List Char) :
    (s.reverse ++ r).take 2 = ['\n', '\n'] ↔ (s'.reverse ++ r').take 2 = ['\n', '\n'] := by
  obtain ⟨a, a', x, x', t, rfl, rfl, hx, hx', ht, -⟩ := h
  cases t using List.reverseRecOn with
  | nil => simp [hx, hx']
  | append_singleton t c =>
    cases t using List.reverseRecOn with
    | nil => simp [hx, hx']
    | append_singleton t b => simp

/-- Texts that end the same and of which both or none are blank. -/
structure Likewise (s s' : List Char) : Prop where
  ending : SameEnd s s'
  blanks : Blanks s ↔ Blanks s'

theorem likewise_append (h : ¬ Blanks t) (s s' : List Char) : Likewise (s ++ t) (s' ++ t) := by
  refine ⟨sameEnd_append (fun ht => h ht.blanks) s s', ?_⟩
  rw [blanks_append, blanks_append]
  exact iff_of_false (fun hs => h hs.2) fun hs => h hs.2

theorem likewise_self (h : ¬ Newlines s) : Likewise s s := ⟨sameEnd_append h [] [], Iff.rfl⟩

theorem Likewise.append (h : Likewise s s') (u : List Char) : Likewise (s ++ u) (s' ++ u) :=
  ⟨h.ending.append u, by rw [blanks_append, blanks_append, h.blanks]⟩

theorem Likewise.prepend (h : Likewise s s') {u u' : List Char} (hu : Blanks u) (hu' : Blanks u') :
    Likewise (u ++ s) (u' ++ s') :=
  ⟨h.ending.prepend u u', by rw [blanks_append, blanks_append, h.blanks]; simp [hu, hu']⟩

/-! Texts that end in a line that is not empty. -/

/-- The text shows something, and its last line is there and ended. -/
structure Solid (s : List Char) : Prop where
  ending : ∃ a x, s = a ++ [x, '\n'] ∧ x ≠ '\n'
  shown : ¬ Blanks s

theorem Solid.likewise (h : Solid s) (h' : Solid s') : Likewise s s' := by
  obtain ⟨a, x, hs, hx⟩ := h.ending
  obtain ⟨a', x', hs', hx'⟩ := h'.ending
  exact ⟨⟨a, a', x, x', ['\n'], hs, hs', hx, hx', by simp [Newlines], by simp⟩,
    iff_of_false h.shown h'.shown⟩

theorem exists_ending {line : List Char} (hline : line ≠ []) (hnewline : '\n' ∉ line)
    (a : List Char) : ∃ b x, a ++ (line ++ ['\n']) = b ++ [x, '\n'] ∧ x ≠ '\n' := by
  obtain ⟨front, x, rfl⟩ := (List.eq_nil_or_concat line).resolve_left hline
  rw [List.concat_eq_append] at hnewline ⊢
  exact ⟨a ++ front, x, by simp, fun hx => hnewline (by simp [hx])⟩

theorem Solid.prepend (h : Solid s) (a : List Char) : Solid (a ++ s) := by
  obtain ⟨b, x, hs, hx⟩ := h.ending
  exact ⟨⟨a ++ b, x, by rw [hs, List.append_assoc], hx⟩,
    fun has => h.shown (blanks_append.mp has).2⟩

theorem solid_line {line : List Char} (hshown : ¬ Blanks line) (hnewline : '\n' ∉ line) :
    Solid (line ++ ['\n']) := by
  have hne : line ≠ [] := by
    rintro rfl
    exact hshown (by simp [Blanks])
  exact ⟨exists_ending hne hnewline [], fun h => hshown (blanks_append.mp h).1⟩

/-- A text with its lines joined and without the blanks around it. -/
def joinedLine (s : List Char) : List Char := replace '\n' [' '] (trim s)

theorem newline_not_mem_joinedLine (s : List Char) : '\n' ∉ joinedLine s :=
  not_mem_replace (by decide) _

theorem Blanks.joinedLine_eq_nil (h : Blanks s) : joinedLine s = [] := by
  have hstart : trimStart s = [] := List.dropWhile_eq_nil_iff.mpr h
  rw [joinedLine, trim, hstart]
  rfl

theorem not_blanks_joinedLine (h : ¬ Blanks s) : ¬ Blanks (joinedLine s) := by
  obtain ⟨c, hc, hshown⟩ := not_blanks.mp h
  have hstart : c ∈ trimStart s := by
    rw [← List.takeWhile_append_dropWhile (p := isBlank) (l := s), List.mem_append] at hc
    refine hc.resolve_left fun htake => ?_
    rw [List.all_eq_true.mp List.all_takeWhile c htake] at hshown
    cases hshown
  have htrim : c ∈ trim s := by
    obtain ⟨a, b, heq⟩ := List.append_of_mem hstart
    rw [trim, trimEnd, heq, dropEndWhile_append_cons hshown]
    exact List.mem_append_right a List.mem_cons_self
  have hne : c ≠ '\n' := by
    rintro rfl
    cases hshown
  have hspace : c ∉ [' '] := by
    rw [List.mem_singleton]
    rintro rfl
    cases hshown
  exact not_blanks.mpr ⟨c, (mem_replace_iff hne hspace).mpr htrim, hshown⟩

end MystNotebook.Text

namespace MystNotebook.Markdown
open Text

/-! Layouts. -/

/-- The last line of several is not empty. -/
theorem bodyLines_concat_ne_nil {body line last : List Char} {front : List (List Char)}
    (h : bodyLines body = line :: (front ++ [last])) : last ≠ [] := by
  rintro rfl
  have hflat := flatMap_pieces (trimNewlines body)
  rw [← bodyLines, h, ← List.cons_append, List.flatMap_append, List.flatMap_singleton,
    List.nil_append, List.append_left_inj] at hflat
  have hlast := getLast?_flatMap (f := (· ++ ['\n'])) (l := line :: front)
    (fun _ _ => List.getLast?_concat) (List.cons_ne_nil line front)
  rw [hflat] at hlast
  obtain ⟨t, ht⟩ := List.getLast?_eq_some_iff.mp hlast
  exact absurd (not_of_dropEndWhile_eq ht) (by decide)

theorem solid_quoteText (body : List Char) : Solid (quoteText body) := by
  obtain ⟨front, last, hlines⟩ :=
    (List.eq_nil_or_concat (bodyLines body)).resolve_left (bodyLines_ne_nil body)
  rw [List.concat_eq_append] at hlines
  have hnewline : '\n' ∉ last :=
    newline_not_mem_of_mem_pieces (s := trimNewlines body) (by rw [← bodyLines, hlines]; simp)
  rw [quoteText, hlines, List.flatMap_append, List.flatMap_singleton]
  refine Solid.prepend ?_ _
  unfold quoteLine
  split
  · have hmark : Solid (['>'] ++ ['\n']) := solid_line (by simp [Blanks, isBlank]) (by decide)
    exact hmark
  · exact solid_line (by simp [Blanks, isBlank]) (by simpa using hnewline)

/-- What the lines below the first leave of the end. -/
theorem exists_ending_indentedLines {first body line : List Char} {rest : List (List Char)}
    (h : bodyLines body = line :: rest) (hfirst : ∃ a x, first = a ++ [x, '\n'] ∧ x ≠ '\n')
    (width : Nat) :
    ∃ a x, first ++ rest.flatMap (indentedLine width) = a ++ [x, '\n'] ∧ x ≠ '\n' := by
  rcases List.eq_nil_or_concat rest with rfl | ⟨front, last, rfl⟩
  · simpa using hfirst
  · rw [List.concat_eq_append] at h ⊢
    have hne := bodyLines_concat_ne_nil h
    have hnewline : '\n' ∉ last :=
      newline_not_mem_of_mem_pieces (s := trimNewlines body) (by rw [← bodyLines, h]; simp)
    rw [List.flatMap_append, List.flatMap_singleton, ← List.append_assoc, indentedLine,
      if_neg (by simpa using hne)]
    exact exists_ending (by simp [hne]) (by simp [hnewline]) _

theorem solid_itemText {marker : List Char} (hshown : ¬ Blanks (trimEnd marker))
    (hnewline : '\n' ∉ marker) (body : List Char) : Solid (itemText marker body) := by
  obtain ⟨line, rest, hlines, -⟩ := pieces_cases (trimNewlines body)
  rw [← bodyLines] at hlines
  have hline : '\n' ∉ line :=
    newline_not_mem_of_mem_pieces (s := trimNewlines body) (by rw [← bodyLines, hlines]; simp)
  have hmarker : '\n' ∉ trimEnd marker := fun h =>
    hnewline ((dropEndWhile_isPrefix isBlank marker).subset h)
  simp only [itemText, hlines]
  have hsolid : Solid (trimEnd marker ++ (if line.isEmpty then [] else ' ' :: line) ++ ['\n']) := by
    refine solid_line (fun h => hshown (blanks_append.mp h).1) ?_
    split <;> simp [hmarker, hline]
  exact ⟨exists_ending_indentedLines hlines hsolid.ending _,
    fun h => hsolid.shown (blanks_append.mp h).1⟩

theorem solid_marker (ordered : Bool) (number : UInt32) (body : List Char) :
    Solid (itemText (marker ordered number) body) := by
  cases ordered with
  | false =>
    have hbullet : trimEnd (marker false number) = ['-'] := rfl
    refine solid_itemText ?_ ?_ body
    · rw [hbullet]
      simp [Blanks, isBlank]
    · show '\n' ∉ ['-', ' ']
      decide
  | true =>
    have hdot : trimEnd (marker true number) = (toString number.toNat).toList ++ ['.'] :=
      dropEndWhile_append_cons rfl _ [' ']
    refine solid_itemText ?_ ?_ body
    · rw [hdot, blanks_append]
      exact fun h => absurd h.2 (by simp [Blanks, isBlank])
    · show '\n' ∉ (toString number.toNat).toList ++ ['.', ' ']
      rw [List.mem_append, not_or]
      exact ⟨not_mem_digits (by decide) number.toNat, by decide⟩

theorem solid_descriptionText (body : List Char) : Solid (descriptionText body) := by
  obtain ⟨line, rest, hlines, -⟩ := pieces_cases (trimNewlines body)
  rw [← bodyLines] at hlines
  have hline : '\n' ∉ line :=
    newline_not_mem_of_mem_pieces (s := trimNewlines body) (by rw [← bodyLines, hlines]; simp)
  have hsolid : Solid ([':', ' '] ++ line ++ ['\n']) :=
    solid_line (by simp [Blanks, isBlank]) (by simpa using hline)
  simp only [descriptionText, hlines]
  exact ⟨exists_ending_indentedLines hlines hsolid.ending _,
    fun h => hsolid.shown (blanks_append.mp h).1⟩

theorem likewise_cellText (s s' : List Char) :
    Likewise (cellText s ++ [' ', '|']) (cellText s' ++ [' ', '|']) :=
  likewise_append (by simp [Blanks, isBlank]) _ _

/-- Below its info string and its options a fenced block is the same. -/
theorem likewise_fencedText (info info' : List Char) (options options' : List (String × String))
    (value : List Char) :
    Likewise (fencedText info options value) (fencedText info' options' value) := by
  have htick : '`' ∈ backtickFence value :=
    List.mem_replicate.mpr ⟨by unfold backtickCount; omega, rfl⟩
  have hfence : ¬ Blanks (backtickFence value ++ ['\n']) :=
    not_blanks.mpr ⟨'`', List.mem_append_left _ htick, rfl⟩
  simp only [fencedText, List.append_assoc _ (backtickFence value) ['\n']]
  exact likewise_append hfence _ _

/-- A title behind the name of a directive is on its line. -/
theorem likewise_directiveStart (fence : List Char) (name : String)
    (options : List (String × String)) (s s' : List Char) :
    Likewise
      (directiveStart fence name (some (String.ofList (joinedLine s))) options)
      (directiveStart fence name (some (String.ofList (joinedLine s'))) options) := by
  have hfirst (s : List Char) : ∃ line, Solid line ∧
      directiveStart fence name (some (String.ofList (joinedLine s))) options =
        line ++ optionLines options := by
    refine ⟨_, ?_, rfl⟩
    have hline := newline_not_mem_joinedLine s
    simp only [String.toList_ofList, List.append_assoc]
    refine Solid.prepend (Solid.prepend (Solid.prepend ?_ _) _) _
    rw [← List.append_assoc]
    refine solid_line (by simp [Blanks, isBlank]) ?_
    split <;> simp [hline]
  obtain ⟨line, hline, heq⟩ := hfirst s
  obtain ⟨line', hline', heq'⟩ := hfirst s'
  rw [heq, heq']
  exact (hline.likewise hline').append _

end MystNotebook.Markdown
