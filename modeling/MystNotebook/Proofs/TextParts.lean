import Mathlib.Data.List.Infix
import MystNotebook.Text.Line

/-! Parts of a text: what trimming leaves and what stands between its newlines are all contiguous in
it, and a text that ends in a newline is cut into lines apart from what follows it. -/
namespace MystNotebook.Text

theorem exists_eq_dropEndWhile_append (p : Char → Bool) (s : List Char) :
    ∃ t, s = dropEndWhile p s ++ t ∧ ∀ c ∈ t, p c = true := by
  refine ⟨(s.reverse.takeWhile p).reverse, ?_, fun c hc => ?_⟩
  · rw [dropEndWhile, ← List.reverse_append, List.takeWhile_append_dropWhile, List.reverse_reverse]
  · exact List.all_eq_true.mp List.all_takeWhile c (List.mem_reverse.mp hc)

theorem dropEndWhile_append {p : Char → Bool} {t : List Char} (h : ∀ c ∈ t, p c = true)
    (s : List Char) : dropEndWhile p (s ++ t) = dropEndWhile p s := by
  have ht : ∀ c ∈ t.reverse, p c = true := fun c hc => h c (List.mem_reverse.mp hc)
  rw [dropEndWhile, List.reverse_append, List.dropWhile_append_of_pos ht, ← dropEndWhile]

/-- Nothing is dropped before a character that stays. -/
theorem dropEndWhile_append_cons {p : Char → Bool} {x : Char} (hx : p x = false)
    (s t : List Char) : dropEndWhile p (s ++ x :: t) = s ++ x :: dropEndWhile p t := by
  have hreverse : (s ++ x :: t).reverse = t.reverse ++ x :: s.reverse := by simp
  rw [dropEndWhile, dropEndWhile, hreverse, List.dropWhile_append]
  split
  next hempty =>
    rw [List.isEmpty_iff.mp hempty, List.dropWhile_cons_of_neg (by simp [hx])]
    simp
  next => simp

theorem dropEndWhile_isPrefix (p : Char → Bool) (s : List Char) : dropEndWhile p s <+: s := by
  obtain ⟨t, ht, -⟩ := exists_eq_dropEndWhile_append p s
  exact ⟨t, ht.symm⟩

theorem infix_flatMap_of_mem {α : Type} {f : α → List Char} {x : α} {xs : List α} (h : x ∈ xs) :
    f x <:+: xs.flatMap f := by
  obtain ⟨front, back, rfl⟩ := List.append_of_mem h
  rw [List.flatMap_append, List.flatMap_cons, ← List.append_assoc]
  exact List.infix_append _ _ _

/-- What ends in a character that stays is not cut. -/
theorem concat_infix_dropEndWhile {p : Char → Bool} {x : Char} (hx : p x = false) {w s : List Char}
    (h : w ++ [x] <:+: s) : w ++ [x] <:+: dropEndWhile p s := by
  obtain ⟨front, back, rfl⟩ := h
  have hdrop := dropEndWhile_append_cons hx (front ++ w) back
  simp only [List.append_assoc, List.cons_append, List.nil_append] at hdrop ⊢
  rw [hdrop]
  exact ⟨front, dropEndWhile p back, by simp⟩

theorem not_of_dropEndWhile_eq {p : Char → Bool} {x : Char} {s t : List Char}
    (h : dropEndWhile p s = t ++ [x]) : p x = false := by
  have hreverse : s.reverse.dropWhile p = x :: t.reverse := by
    rw [← List.reverse_reverse (s.reverse.dropWhile p), ← dropEndWhile, h, List.reverse_append]
    rfl
  have hhead := List.head?_dropWhile_not p s.reverse
  rw [hreverse] at hhead
  simpa using hhead

theorem trim_isInfix (s : List Char) : trim s <:+: s :=
  (dropEndWhile_isPrefix isBlank _).isInfix.trans (List.dropWhile_suffix isBlank).isInfix

/-! Characters that are replaced. -/

theorem not_mem_replace {c : Char} {image : List Char} (himage : c ∉ image) (s : List Char) :
    c ∉ replace c image s := by
  rw [replace, List.mem_flatMap]
  rintro ⟨x, -, hc⟩
  split at hc
  · exact himage hc
  next hne => exact hne (List.mem_singleton.mp hc).symm

theorem mem_replace_iff {c x : Char} {image : List Char} (hc : x ≠ c) (himage : x ∉ image)
    {s : List Char} : x ∈ replace c image s ↔ x ∈ s := by
  rw [replace, List.mem_flatMap]
  constructor
  · rintro ⟨y, hy, hx⟩
    split at hx
    · exact absurd hx himage
    · rwa [List.mem_singleton.mp hx]
  · intro hx
    exact ⟨x, hx, by rw [if_neg hc]; exact List.mem_singleton_self x⟩

/-! Newlines at the end of a text. -/

theorem trimNewlines_append {t : List Char} (h : ∀ c ∈ t, c = '\n') (s : List Char) :
    trimNewlines (s ++ t) = trimNewlines s :=
  dropEndWhile_append (fun c hc => by simp [h c hc]) s

theorem trimNewlines_append_cons {x : Char} (hx : x ≠ '\n') (s t : List Char) :
    trimNewlines (s ++ x :: t) = s ++ x :: trimNewlines t :=
  dropEndWhile_append_cons (p := (· == '\n')) (by simpa using hx) s t

theorem trimNewlines_append_of_mem {t : List Char} {x : Char} (hx : x ∈ t) (hne : x ≠ '\n')
    (s : List Char) : trimNewlines (s ++ t) = s ++ trimNewlines t := by
  obtain ⟨front, back, rfl⟩ := List.append_of_mem hx
  rw [← List.append_assoc, trimNewlines_append_cons hne, trimNewlines_append_cons hne,
    List.append_assoc]

theorem trimNewlines_ne_append {t : List Char} {x : Char} (hx : x ∈ t) (hne : x ≠ '\n')
    (s : List Char) : trimNewlines s ≠ trimNewlines (s ++ t) := by
  intro heq
  obtain ⟨front, back, rfl⟩ := List.append_of_mem hx
  have hshort := (dropEndWhile_isPrefix (· == '\n') s).length_le
  rw [← trimNewlines, heq, ← List.append_assoc, trimNewlines_append_cons hne,
    List.length_append, List.length_append, List.length_cons] at hshort
  omega

theorem trimNewlines_line {s : List Char} (h : '\n' ∉ s) : trimNewlines (s ++ ['\n']) = s := by
  rw [trimNewlines_append (by simp)]
  rcases List.eq_nil_or_concat s with rfl | ⟨t, c, rfl⟩
  · rfl
  · have hc : c ≠ '\n' := fun hc => h (by simp [hc])
    rw [List.concat_eq_append, trimNewlines_append_cons hc]
    rfl

/-! Pieces and lines. -/

/-- The first piece starts the text, and the others stand in it. -/
theorem pieces_cases (s : List Char) :
    ∃ line rest, pieces s = line :: rest ∧ line <+: s ∧ ∀ l ∈ rest, l <:+: s := by
  induction s with
  | nil => exact ⟨[], [], rfl, List.nil_prefix, by simp⟩
  | cons c cs ih =>
    obtain ⟨line, rest, heq, hline, hrest⟩ := ih
    have hcs : cs <:+: c :: cs := (List.suffix_cons c cs).isInfix
    by_cases hc : c = '\n'
    · refine ⟨[], line :: rest, by rw [pieces, if_pos hc, heq], List.nil_prefix, ?_⟩
      exact List.forall_mem_cons.mpr ⟨hline.isInfix.trans hcs, fun l hl => (hrest l hl).trans hcs⟩
    · refine ⟨c :: line, rest, by rw [pieces, if_neg hc, heq], ?_,
        fun l hl => (hrest l hl).trans hcs⟩
      exact List.cons_prefix_cons.mpr ⟨rfl, hline⟩

theorem infix_of_mem_pieces {line s : List Char} (h : line ∈ pieces s) : line <:+: s := by
  obtain ⟨first, rest, heq, hfirst, hrest⟩ := pieces_cases s
  rw [heq] at h
  rcases List.mem_cons.mp h with rfl | h
  · exact hfirst.isInfix
  · exact hrest line h

theorem newline_not_mem_of_mem_pieces {line s : List Char} (h : line ∈ pieces s) :
    '\n' ∉ line := by
  induction s generalizing line with
  | nil =>
    rw [List.mem_singleton.mp h]
    exact List.not_mem_nil
  | cons c s ih =>
    obtain ⟨first, rest, hs, -⟩ := pieces_cases s
    rw [pieces] at h
    split at h
    next hc =>
      rcases List.mem_cons.mp h with rfl | h
      · exact List.not_mem_nil
      · exact ih h
    next hc =>
      rw [hs] at h ih
      rcases List.mem_cons.mp h with rfl | h
      · rw [List.mem_cons, not_or]
        exact ⟨Ne.symm hc, ih List.mem_cons_self⟩
      · exact ih (List.mem_cons_of_mem first h)

theorem flatMap_pieces (s : List Char) : (pieces s).flatMap (· ++ ['\n']) = s ++ ['\n'] := by
  induction s with
  | nil => rfl
  | cons c s ih =>
    obtain ⟨line, rest, hs, -⟩ := pieces_cases s
    rw [hs, List.flatMap_cons] at ih
    rw [pieces, hs]
    split
    next hc => simp [hc, ← ih]
    next => simp [← ih]

theorem pieces_injective : Function.Injective pieces := by
  intro s t heq
  have hended : s ++ ['\n'] = t ++ ['\n'] := by
    rw [← flatMap_pieces, ← flatMap_pieces, heq]
  exact List.append_cancel_right hended

theorem infix_of_mem_fullLines {line s : List Char} (h : line ∈ fullLines s) : line <:+: s := by
  obtain ⟨front, back, hlines⟩ := List.append_of_mem h
  refine ⟨front.flatten, back.flatten, ?_⟩
  conv => rhs; rw [← flatten_fullLines s, hlines, List.flatten_append, List.flatten_cons]
  rw [List.append_assoc]

theorem ne_nil_of_mem_fullLines {line s : List Char} (h : line ∈ fullLines s) : line ≠ [] := by
  induction s with
  | nil => cases h
  | cons c s ih =>
    rw [fullLines] at h
    split at h
    · rcases List.mem_cons.mp h with rfl | h
      · exact List.cons_ne_nil _ _
      · exact ih h
    · split at h
      next => exact List.mem_singleton.mp h ▸ List.cons_ne_nil _ _
      next first rest hlines =>
        rcases List.mem_cons.mp h with rfl | h
        · exact List.cons_ne_nil _ _
        · exact ih (hlines ▸ List.mem_cons_of_mem _ h)

/-- A newline ends the line, and there is no other in it. -/
def IsEndedLine (line : List Char) : Prop := ∃ body, line = body ++ ['\n'] ∧ '\n' ∉ body

theorem isEndedLine_concat {s : List Char} : IsEndedLine (s ++ ['\n']) ↔ '\n' ∉ s := by
  constructor
  · rintro ⟨body, heq, hbody⟩
    rwa [List.append_cancel_right heq]
  · intro hs
    exact ⟨s, rfl, hs⟩

theorem line_of_mem_fullLines {line s : List Char} (h : line ∈ fullLines s) :
    IsEndedLine line ∨ '\n' ∉ line := by
  induction s generalizing line with
  | nil => cases h
  | cons c s ih =>
    rw [fullLines] at h
    split at h
    next hc =>
      rcases List.mem_cons.mp h with rfl | h
      · exact .inl ⟨[], rfl, List.not_mem_nil⟩
      · exact ih h
    next hc =>
      split at h
      next =>
        rw [List.mem_singleton.mp h]
        exact .inr (by simpa [eq_comm] using hc)
      next first rest hlines =>
        rw [hlines] at ih
        rcases List.mem_cons.mp h with rfl | h
        · rcases ih List.mem_cons_self with ⟨body, rfl, hbody⟩ | hfirst
          · exact .inl ⟨c :: body, rfl, by simpa [eq_comm] using ⟨hc, hbody⟩⟩
          · exact .inr (by simpa [eq_comm] using ⟨hc, hfirst⟩)
        · exact ih (List.mem_cons_of_mem _ h)

/-- Of a text that does not end in a newline every line but the last does. -/
theorem exists_fullLines_concat {x : Char} (hx : x ≠ '\n') (s : List Char) :
    ∃ front last, fullLines (s ++ [x]) = front ++ [last] ∧ (∀ line ∈ front, IsEndedLine line) ∧
      last ≠ [] ∧ '\n' ∉ last := by
  induction s with
  | nil =>
    refine ⟨[], [x], ?_, by simp, List.cons_ne_nil x [], by simpa using hx.symm⟩
    rw [List.nil_append, fullLines, if_neg hx, fullLines]
    rfl
  | cons c s ih =>
    obtain ⟨front, last, hlines, hfront, hlast, hnewline⟩ := ih
    rw [List.cons_append, fullLines]
    by_cases hc : c = '\n'
    · rw [if_pos hc, hlines]
      refine ⟨['\n'] :: front, last, rfl, ?_, hlast, hnewline⟩
      exact List.forall_mem_cons.mpr ⟨⟨[], rfl, List.not_mem_nil⟩, hfront⟩
    · rw [if_neg hc, hlines]
      cases front with
      | nil =>
        exact ⟨[], c :: last, rfl, by simp, List.cons_ne_nil c last,
          by simpa [eq_comm] using ⟨hc, hnewline⟩⟩
      | cons first front =>
        obtain ⟨⟨body, rfl, hbody⟩, hrest⟩ := List.forall_mem_cons.mp hfront
        refine ⟨(c :: body ++ ['\n']) :: front, last, rfl, ?_, hlast, hnewline⟩
        refine List.forall_mem_cons.mpr ⟨⟨c :: body, rfl, ?_⟩, hrest⟩
        simpa [eq_comm] using ⟨hc, hbody⟩

theorem withoutEnding_isPrefix (line : List Char) : withoutEnding line <+: line := by
  unfold withoutEnding
  split
  next rest h =>
    exact ⟨['\r', '\n'], by rw [← List.reverse_reverse line, h]; simp⟩
  next rest _ h =>
    exact ⟨['\n'], by rw [← List.reverse_reverse line, h]; simp⟩
  next => exact List.prefix_refl line

theorem infix_of_mem_lines {line s : List Char} (h : line ∈ lines s) : line <:+: s := by
  obtain ⟨full, hfull, rfl⟩ := List.mem_map.mp h
  exact (withoutEnding_isPrefix full).isInfix.trans (infix_of_mem_fullLines hfull)

theorem fullLines_line {s : List Char} (h : '\n' ∉ s) :
    fullLines (s ++ ['\n']) = [s ++ ['\n']] := by
  induction s with
  | nil => rfl
  | cons c s ih =>
    rw [List.mem_cons, not_or] at h
    rw [List.cons_append, fullLines, if_neg (Ne.symm h.1), ih h.2]

/-- A newline ends a line, and the text behind it is cut on its own. -/
theorem fullLines_append_newline (s t : List Char) :
    fullLines (s ++ '\n' :: t) = fullLines (s ++ ['\n']) ++ fullLines t := by
  induction s with
  | nil => rfl
  | cons c s ih =>
    rw [List.cons_append, List.cons_append, fullLines, fullLines, ih]
    split
    · rfl
    · cases hlines : fullLines (s ++ ['\n']) with
      | nil =>
        have hflat := flatten_fullLines (s ++ ['\n'])
        rw [hlines] at hflat
        exact absurd hflat.symm (by simp)
      | cons line lines => rfl

theorem fullLines_flatten {lines : List (List Char)} (h : ∀ line ∈ lines, IsEndedLine line) :
    fullLines lines.flatten = lines := by
  induction lines with
  | nil => rfl
  | cons line lines ih =>
    obtain ⟨⟨body, rfl, hbody⟩, hlines⟩ := List.forall_mem_cons.mp h
    rw [List.flatten_cons, List.append_assoc, List.singleton_append, fullLines_append_newline,
      fullLines_line hbody, ih hlines, List.singleton_append]

/-- The first line goes on behind a start without newlines. -/
theorem exists_fullLines_eq_cons {s : List Char} (hs : s ≠ []) (hnewline : '\n' ∉ s)
    (t : List Char) : ∃ line rest, fullLines (s ++ t) = (s ++ line) :: rest := by
  induction s with
  | nil => exact absurd rfl hs
  | cons c s ih =>
    rw [List.mem_cons, not_or] at hnewline
    rw [List.cons_append, fullLines, if_neg (Ne.symm hnewline.1)]
    cases s with
    | nil =>
      rw [List.nil_append]
      cases fullLines t with
      | nil => exact ⟨[], [], rfl⟩
      | cons line lines => exact ⟨line, lines, rfl⟩
    | cons c' s =>
      obtain ⟨line, rest, hlines⟩ := ih (List.cons_ne_nil c' s) hnewline.2
      rw [hlines]
      exact ⟨line, rest, rfl⟩

end MystNotebook.Text
