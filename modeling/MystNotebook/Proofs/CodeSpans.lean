import MystNotebook.Proofs.QuotedReferences

/-! Code spans, read back. A span ends at the next run of as many backticks as it starts with, and
one space is taken off both ends of what is padded. The writer sets every value with a backtick
between two of them and pads it, and any other value between single ones as it is; so the values
that are not read back are those with a run of just two backticks, and padded ones without any. -/
namespace MystNotebook

namespace Text

/-- The lengths of the runs of `c`, one before every other character and one at the end, when a run
of length `current` stands before the text. -/
def runLengths (c : Char) (current : Nat) : List Char → List Nat
  | [] => [current]
  | x :: s => if x = c then runLengths c (current + 1) s else current :: runLengths c 0 s

theorem eq_zero_of_mem_runLengths {c : Char} {n : Nat} {s : List Char} (h : c ∉ s)
    (hn : n ∈ runLengths c 0 s) : n = 0 := by
  induction s with
  | nil => exact List.mem_singleton.mp hn
  | cons x s ih =>
    rw [List.mem_cons, not_or] at h
    rw [runLengths, if_neg (Ne.symm h.1), List.mem_cons] at hn
    exact hn.elim id (ih h.2)

end Text

namespace Markdown
open Text

/-- A text up to the next run of exactly `n` backticks, and what follows the run; before the text
stand `run` backticks more. -/
def untilRun (n run : Nat) : List Char → Option (List Char × List Char)
  | [] => if run = n then some ([], []) else none
  | c :: s =>
    if c = '`' then untilRun n (run + 1) s
    else if run = n then some ([], c :: s)
    else (untilRun n 0 s).map fun span => (List.replicate run '`' ++ c :: span.1, span.2)

/-- Whether a space stands at both ends of a text that has not only spaces. -/
def isPadded (s : List Char) : Bool :=
  s.head? == some ' ' && s.getLast? == some ' ' && s.any (· != ' ')

def unpadded (s : List Char) : List Char := if isPadded s then s.tail.dropLast else s

/-- The code span that a text starts with, as CommonMark reads it, and what follows it. -/
def readCodeSpan (s : List Char) : Option (List Char × List Char) :=
  let ticks := (s.takeWhile (· == '`')).length
  if ticks = 0 then none
  else (untilRun ticks 0 (s.dropWhile (· == '`'))).map fun span =>
    (unpadded (replace '\n' [' '] span.1), span.2)

/-! The closing run. -/

/-- A text without a run of the length stands in the content as a whole. -/
theorem untilRun_append {n run : Nat} {s : List Char} (h : n ∉ runLengths '`' run s) {x : Char}
    (hx : x ≠ '`') (t : List Char) :
    untilRun n run (s ++ x :: t) = (untilRun n 0 t).map fun span =>
      (List.replicate run '`' ++ s ++ x :: span.1, span.2) := by
  induction s generalizing run with
  | nil =>
    rw [runLengths, List.mem_singleton] at h
    rw [List.nil_append, untilRun, if_neg hx, if_neg (Ne.symm h)]
    simp only [List.append_nil]
  | cons c s ih =>
    rw [List.cons_append, untilRun]
    by_cases hc : c = '`'
    · subst hc
      rw [runLengths, if_pos rfl] at h
      rw [if_pos rfl, ih h]
      simp only [List.replicate_succ', List.append_assoc, List.cons_append, List.nil_append]
    · rw [runLengths, if_neg hc, List.mem_cons, not_or] at h
      rw [if_neg hc, if_neg (Ne.symm h.1), ih h.2, Option.map_map]
      simp [Function.comp_def]

/-- A run of the length closes the span before the text is over. -/
theorem exists_untilRun_append {n run : Nat} {s : List Char} (h : n ∈ runLengths '`' run s)
    {x : Char} (hx : x ≠ '`') (t : List Char) :
    ∃ content rest, untilRun n run (s ++ x :: t) = some (content, rest) ∧ x :: t <:+ rest := by
  induction s generalizing run with
  | nil =>
    rw [runLengths, List.mem_singleton] at h
    refine ⟨[], x :: t, ?_, List.suffix_refl _⟩
    rw [List.nil_append, untilRun, if_neg hx, if_pos h.symm]
  | cons c s ih =>
    rw [List.cons_append, untilRun]
    by_cases hc : c = '`'
    · subst hc
      rw [runLengths, if_pos rfl] at h
      rw [if_pos rfl]
      exact ih h
    · rw [if_neg hc]
      rw [runLengths, if_neg hc, List.mem_cons] at h
      by_cases hrun : run = n
      · refine ⟨[], c :: (s ++ x :: t), if_pos hrun, ?_⟩
        exact (List.suffix_append s (x :: t)).trans (List.suffix_cons c _)
      · obtain ⟨content, rest, heq, hrest⟩ := ih (h.resolve_left (Ne.symm hrun))
        refine ⟨List.replicate run '`' ++ c :: content, rest, ?_, hrest⟩
        rw [if_neg hrun, heq]
        rfl

/-! Padding. -/

theorem isPadded_pad {s : List Char} (h : '`' ∈ s) : isPadded (' ' :: (s ++ [' '])) = true := by
  have hlast : (' ' :: (s ++ [' '])).getLast? = some ' ' := by
    rw [← List.cons_append, List.getLast?_concat]
  have hany : (' ' :: (s ++ [' '])).any (· != ' ') = true :=
    List.any_eq_true.mpr ⟨'`', by simp [h], by decide⟩
  simp [isPadded, hlast, hany]

theorem unpadded_pad {s : List Char} (h : '`' ∈ s) : unpadded (' ' :: (s ++ [' '])) = s := by
  rw [unpadded, if_pos (isPadded_pad h), List.tail_cons, List.dropLast_concat]

theorem unpadded_eq_self_iff {s : List Char} : unpadded s = s ↔ isPadded s = false := by
  rw [unpadded]
  split
  next h =>
    have hne : s ≠ [] := by
      rintro rfl
      cases h
    have hlength : (s.tail.dropLast).length < s.length := by
      have hpos := List.length_pos_iff.mpr hne
      rw [List.length_dropLast, List.length_tail]
      omega
    constructor
    · intro heq
      rw [heq] at hlength
      exact absurd hlength (lt_irrefl _)
    · intro hnot
      rw [h] at hnot
      cases hnot
  next h => exact ⟨fun _ => Bool.eq_false_iff.mpr h, fun _ => rfl⟩

theorem replace_eq_self {c : Char} {image s : List Char} (h : c ∉ s) : replace c image s = s := by
  induction s with
  | nil => rfl
  | cons x s ih =>
    rw [List.mem_cons, not_or] at h
    rw [replace, List.flatMap_cons, ← replace, if_neg (Ne.symm h.1), ih h.2]
    rfl

theorem unpadded_subset (s : List Char) : unpadded s ⊆ s := by
  unfold unpadded
  split
  · exact List.Subset.trans (List.dropLast_subset _) (List.tail_subset s)
  · exact List.Subset.refl s

/-- What is read from a text stays as it is if it is one line without padding. -/
theorem unpadded_replace_eq_iff {s : List Char} :
    unpadded (replace '\n' [' '] s) = s ↔ '\n' ∉ s ∧ isPadded s = false := by
  constructor
  · intro h
    have hline : '\n' ∉ s := fun hmem =>
      not_mem_replace (by decide) s (unpadded_subset _ (h.symm ▸ hmem))
    rw [replace_eq_self hline, unpadded_eq_self_iff] at h
    exact ⟨hline, h⟩
  · rintro ⟨hline, hpadded⟩
    rw [replace_eq_self hline, unpadded_eq_self_iff.mpr hpadded]

/-! The two forms of a span. -/

theorem readCodeSpan_singleTicks {s : List Char} (hne : s ≠ []) (h : '`' ∉ s) :
    readCodeSpan ('`' :: (s ++ ['`', '\n'])) =
      some (unpadded (replace '\n' [' '] s), ['\n']) := by
  have hopening : (s ++ ['`', '\n']).takeWhile (· == '`') = [] ∧
      (s ++ ['`', '\n']).dropWhile (· == '`') = s ++ ['`', '\n'] := by
    cases s with
    | nil => exact absurd rfl hne
    | cons x s =>
      have hx : ¬ (x == '`') = true := by
        rw [beq_iff_eq]
        exact fun heq => h (heq ▸ List.mem_cons_self)
      exact ⟨List.takeWhile_cons_of_neg hx, List.dropWhile_cons_of_neg hx⟩
  have hcontent : untilRun 1 0 (s ++ ['`', '\n']) = some (s, ['\n']) := by
    obtain ⟨s, x, rfl⟩ := (List.eq_nil_or_concat s).resolve_left hne
    rw [List.concat_eq_append, List.mem_append, List.mem_singleton, not_or] at h
    have hruns : 1 ∉ runLengths '`' 0 s := fun hmem =>
      absurd (eq_zero_of_mem_runLengths h.1 hmem) (by decide)
    rw [List.concat_eq_append, List.append_assoc, List.singleton_append,
      untilRun_append hruns (Ne.symm h.2)]
    rfl
  rw [readCodeSpan, List.takeWhile_cons_of_pos rfl, List.dropWhile_cons_of_pos rfl, hopening.1,
    hopening.2, List.length_singleton, hcontent]
  rfl

theorem readCodeSpan_doubleTicks (s : List Char) :
    readCodeSpan ("`` ".toList ++ s ++ " ``\n".toList) =
      (untilRun 2 0 ((' ' :: s) ++ ' ' :: "``\n".toList)).map fun span =>
        (unpadded (replace '\n' [' '] span.1), span.2) :=
  rfl

theorem runLengths_space (n : Nat) (s : List Char) :
    n + 1 ∈ runLengths '`' 0 (' ' :: s) ↔ n + 1 ∈ runLengths '`' 0 s := by
  rw [runLengths, if_neg (by decide), List.mem_cons, or_iff_right (Nat.succ_ne_zero n)]

theorem replace_pad (s : List Char) :
    replace '\n' [' '] (' ' :: (s ++ [' '])) = ' ' :: (replace '\n' [' '] s ++ [' ']) := by
  simp [replace]

/-- With a backtick in it, a value is read back if it is one line without a run of just two. -/
theorem readCodeSpan_doubleTicks_eq_iff {s : List Char} (h : '`' ∈ s) :
    readCodeSpan ("`` ".toList ++ s ++ " ``\n".toList) = some (s, ['\n']) ↔
      '\n' ∉ s ∧ 2 ∉ runLengths '`' 0 s := by
  rw [readCodeSpan_doubleTicks]
  by_cases hrun : 2 ∈ runLengths '`' 0 s
  · obtain ⟨content, rest, heq, hrest⟩ :=
      exists_untilRun_append ((runLengths_space 1 s).mpr hrun) (show ' ' ≠ '`' by decide)
        "``\n".toList
    rw [heq, Option.map_some, Option.some_inj, Prod.mk.injEq]
    constructor
    · rintro ⟨-, rfl⟩
      exact absurd hrest.length_le (by decide)
    · rintro ⟨-, hno⟩
      exact absurd hrun hno
  · have hcontent : untilRun 2 0 ((' ' :: s) ++ ' ' :: "``\n".toList) =
        some (' ' :: (s ++ [' ']), ['\n']) := by
      rw [untilRun_append (fun hmem => hrun ((runLengths_space 1 s).mp hmem)) (by decide)]
      rfl
    have hmem : '`' ∈ replace '\n' [' '] s :=
      List.mem_flatMap.mpr ⟨'`', h, List.mem_singleton_self _⟩
    rw [hcontent, Option.map_some, replace_pad, unpadded_pad hmem, Option.some_inj, Prod.mk.injEq,
      and_iff_left rfl, and_iff_left hrun]
    constructor
    · intro heq
      exact heq ▸ not_mem_replace (by decide) s
    · exact replace_eq_self

/-- A code span reads back, and to its end, exactly if its value is one line that is not empty, has
no run of just two backticks, and is not padded unless it has a backtick. -/
theorem readCodeSpan_write_iff (separators : Bool) (value : String) :
    readCodeSpan (write separators [.paragraph [.leaf (.inlineCode value)]]).toList =
        some (value.toList, ['\n']) ↔
      value.toList ≠ [] ∧ '\n' ∉ value.toList ∧ 2 ∉ runLengths '`' 0 value.toList ∧
        (isPadded value.toList = true → '`' ∈ value.toList) := by
  rw [write_inlineCode, String.toList_ofList]
  by_cases htick : '`' ∈ value.toList
  · have hne : value.toList ≠ [] := List.ne_nil_of_mem htick
    have hspan : codeSpan value.toList ++ ['\n'] =
        "`` ".toList ++ value.toList ++ " ``\n".toList := by
      rw [codeSpan, if_pos (List.contains_iff_mem.mpr htick), List.append_assoc]
      rfl
    rw [hspan, readCodeSpan_doubleTicks_eq_iff htick]
    constructor
    · rintro ⟨hline, hruns⟩
      exact ⟨hne, hline, hruns, fun _ => htick⟩
    · rintro ⟨-, hline, hruns, -⟩
      exact ⟨hline, hruns⟩
  · have hspan : codeSpan value.toList ++ ['\n'] = '`' :: (value.toList ++ ['`', '\n']) := by
      rw [codeSpan, if_neg (mt List.contains_iff_mem.mp htick)]
      simp
    have hruns : 2 ∉ runLengths '`' 0 value.toList := fun hmem =>
      absurd (eq_zero_of_mem_runLengths htick hmem) (by decide)
    by_cases hne : value.toList = []
    · rw [hspan, hne]
      decide
    · rw [hspan, readCodeSpan_singleTicks hne htick, Option.some_inj, Prod.mk.injEq,
        and_iff_left rfl, unpadded_replace_eq_iff, ← Bool.not_eq_true]
      constructor
      · rintro ⟨hline, hpadded⟩
        exact ⟨hne, hline, hruns, fun h => absurd h hpadded⟩
      · rintro ⟨-, hline, -, hpadded⟩
        exact ⟨hline, fun h => htick (hpadded h)⟩

/-- A run of two backticks closes the span, and padding without a backtick is taken off. -/
theorem readCodeSpan_write_twoTicks :
    let span (value : String) : Node := .paragraph [.leaf (.inlineCode value)]
    (write true [span "a``b"] = "`` a``b ``\n" ∧
      readCodeSpan "`` a``b ``\n".toList = some (" a".toList, "b ``\n".toList)) ∧
    write true [span " a "] = "` a `\n" ∧
      readCodeSpan "` a `\n".toList = some ("a".toList, "\n".toList) := by
  decide

end Markdown
end MystNotebook
