import MystNotebook.Notebook.Assemble
import MystNotebook.Proofs.CompactJson

/-! Block breaks in front of a text. A break is a line of its own, so stripping takes it off whole,
whatever metadata stands in it. -/
namespace MystNotebook

theorem stripBlockBreaks_lineBreak {c : Char} (h : isLineBreak c = true) (s : List Char) :
    stripBlockBreaks (c :: s) = stripBlockBreaks s := by
  rw [stripBlockBreaks.eq_def]
  exact if_pos h

/-- What is left stands at the end. -/
theorem stripBlockBreaks_isSuffix (s : List Char) : stripBlockBreaks s <:+ s := by
  fun_induction stripBlockBreaks s with
  | case1 => exact List.suffix_refl []
  | case2 c rest hc ih => exact ih.trans (List.suffix_cons c rest)
  | case3 line hc ih =>
    have hline : (line.dropWhile (· ≠ '\n')).drop 1 <:+ line :=
      (List.drop_suffix 1 _).trans (List.dropWhile_suffix _)
    exact (ih.trans hline).trans (List.suffix_append ['+', '+', '+'] line)
  | case4 c rest => exact List.suffix_refl (c :: rest)

/-- A text that starts neither with an empty line nor with a break. -/
theorem stripBlockBreaks_eq_self {c : Char} {rest : List Char} (hc : ¬ isLineBreak c = true)
    (h : ¬ ['+', '+', '+'] <+: c :: rest) : stripBlockBreaks (c :: rest) = c :: rest := by
  rw [stripBlockBreaks.eq_def]
  simp only [hc, Bool.false_eq_true, if_false]
  split
  next line => exact absurd (List.prefix_append ['+', '+', '+'] line) h
  next => rfl

theorem stripBlockBreaks_marker (s : List Char) :
    stripBlockBreaks ('+' :: '+' :: '+' :: s) =
      stripBlockBreaks ((s.dropWhile (· ≠ '\n')).drop 1) := by
  rw [stripBlockBreaks.eq_def]
  exact if_neg (by decide)

theorem drop_dropWhile_line {line : List Char} (h : '\n' ∉ line) (s : List Char) :
    ((line ++ '\n' :: s).dropWhile (· ≠ '\n')).drop 1 = s := by
  have hline : ∀ c ∈ line, decide (c ≠ '\n') = true := by
    intro c hc
    exact decide_eq_true fun he => h (he ▸ hc)
  rw [List.dropWhile_append_of_pos hline]
  simp

theorem stripBlockBreaks_markerLine {line : List Char} (h : '\n' ∉ line) (s : List Char) :
    stripBlockBreaks ('+' :: '+' :: '+' :: (line ++ '\n' :: s)) = stripBlockBreaks s := by
  rw [stripBlockBreaks_marker, drop_dropWhile_line h]

/-- The metadata of a block goes with the break. -/
theorem stripBlockBreaks_metadata (data : Json.Fields) (s : List Char) :
    stripBlockBreaks ("+++ ".toList ++ (Json.Value.ofFields data).compact ++ ['\n', '\n'] ++ s) =
      stripBlockBreaks s := by
  have hline : '\n' ∉ ' ' :: (Json.Value.ofFields data).compact := by
    simpa using Json.Value.newline_not_mem_compact (Json.Value.ofFields data)
  have h := stripBlockBreaks_markerLine hline ('\n' :: s)
  rw [stripBlockBreaks_lineBreak (by decide) s] at h
  simpa using h

theorem stripBlockBreaks_separator (s : List Char) :
    stripBlockBreaks ("+++\n\n".toList ++ s) = stripBlockBreaks s := by
  have hline : '\n' ∉ ([] : List Char) := List.not_mem_nil
  have h := stripBlockBreaks_markerLine hline ('\n' :: s)
  rw [stripBlockBreaks_lineBreak (by decide) s] at h
  exact h

/-- Wherever a block stands, its break is stripped. -/
theorem stripBlockBreaks_anyBreak (separators started : Bool) (n : Node) (s : List Char) :
    stripBlockBreaks (Markdown.blockBreak separators started n ++ s) = stripBlockBreaks s := by
  have hseparator : stripBlockBreaks
      ((if started && separators then "+++\n\n".toList else []) ++ s) = stripBlockBreaks s := by
    split
    · exact stripBlockBreaks_separator s
    · rfl
  unfold Markdown.blockBreak
  split
  · split
    · exact hseparator
    · exact stripBlockBreaks_metadata _ s
  · exact hseparator
  · rfl

/-- The break that is written for the first block at the top. -/
theorem stripBlockBreaks_blockBreak (separators : Bool) (n : Node) (s : List Char) :
    stripBlockBreaks (Markdown.blockBreak separators false n ++ s) = stripBlockBreaks s :=
  stripBlockBreaks_anyBreak separators false n s

end MystNotebook
