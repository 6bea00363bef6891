import MystNotebook.Proofs.InnerBlocks
import MystNotebook.Proofs.WellFormedCells

/-! What stands in front of a text. Stripping takes off line endings and breaks, one after the
other, and stops where neither is left; nothing else is taken off, and there is only one place to
stop. -/
namespace MystNotebook

/-- Between the text and the rest of it there are only line endings and breaks. A break goes up to
its newline, or to the end of the text. -/
inductive LeadsTo : List Char → List Char → Prop
  | done (s : List Char) : LeadsTo s s
  | lineBreak {c : Char} {s t : List Char} : isLineBreak c = true → LeadsTo s t → LeadsTo (c :: s) t
  | marker {line s t : List Char} : '\n' ∉ line → LeadsTo s t →
      LeadsTo ("+++".toList ++ (line ++ '\n' :: s)) t
  | lastMarker {line : List Char} : '\n' ∉ line → LeadsTo ("+++".toList ++ line) []

theorem stripBlockBreaks_lastMarker {line : List Char} (h : '\n' ∉ line) :
    stripBlockBreaks ('+' :: '+' :: '+' :: line) = [] := by
  have hdrop : line.dropWhile (· ≠ '\n') = [] := by
    refine List.dropWhile_eq_nil_iff.mpr fun c hc => decide_eq_true ?_
    rintro rfl
    exact h hc
  rw [stripBlockBreaks_marker, hdrop]
  exact stripBlockBreaks.eq_1

/-- Stripping does not stop before any rest that the text leads to. -/
theorem LeadsTo.stripBlockBreaks_eq {s t : List Char} (h : LeadsTo s t) :
    stripBlockBreaks s = stripBlockBreaks t := by
  induction h with
  | done s => rfl
  | lineBreak hc hrest ih => rw [stripBlockBreaks_lineBreak hc, ih]
  | marker hline hrest ih => exact (stripBlockBreaks_markerLine hline _).trans ih
  | lastMarker hline => exact (stripBlockBreaks_lastMarker hline).trans stripBlockBreaks.eq_1.symm

theorem leadsTo_stripBlockBreaks (s : List Char) : LeadsTo s (stripBlockBreaks s) := by
  fun_induction stripBlockBreaks s with
  | case1 => exact .done []
  | case2 c rest hc ih => exact .lineBreak hc ih
  | case3 line hc ih =>
    by_cases hline : '\n' ∈ line
    · obtain ⟨first, rest, hfirst, rfl⟩ := exists_firstLine hline
      rw [drop_dropWhile_line hfirst] at ih ⊢
      exact .marker hfirst ih
    · rw [← stripBlockBreaks_marker, stripBlockBreaks_lastMarker hline]
      exact .lastMarker hline
  | case4 c rest => exact .done (c :: rest)

theorem StartsProse.stripBlockBreaks_eq {s : List Char} (h : StartsProse s) :
    stripBlockBreaks s = s := by
  cases s with
  | nil => exact stripBlockBreaks.eq_1
  | cons c rest => exact stripBlockBreaks_eq_self (by simp [h.noLineBreak c rfl]) h.noBlockBreak

/-- Where the text leads to prose, there stripping stops. -/
theorem stripBlockBreaks_eq_iff {s t : List Char} :
    stripBlockBreaks s = t ↔ LeadsTo s t ∧ StartsProse t := by
  constructor
  · rintro rfl
    exact ⟨leadsTo_stripBlockBreaks s, StartsProse.strip s⟩
  · rintro ⟨hleads, hprose⟩
    rw [hleads.stripBlockBreaks_eq, hprose.stripBlockBreaks_eq]

/-! Stripping in rounds: all line endings first, then a single break. -/

/-- The rest after a break that stands behind the line endings, if one does. -/
def stripRound (s : List Char) : Option (List Char) :=
  let t := s.dropWhile isLineBreak
  if "+++".toList.isPrefixOf t then some ((t.dropWhile (· ≠ '\n')).drop 1) else none

/-- Rounds until there is no break, for as many as are given. -/
def stripRounds : Nat → List Char → Option (List Char)
  | 0, _ => none
  | rounds + 1, s =>
    match stripRound s with
    | some t => stripRounds rounds t
    | none => some (s.dropWhile isLineBreak)

theorem stripBlockBreaks_dropWhile (s : List Char) :
    stripBlockBreaks (s.dropWhile isLineBreak) = stripBlockBreaks s := by
  induction s with
  | nil => rfl
  | cons c s ih =>
    cases hc : isLineBreak c with
    | true => rw [List.dropWhile_cons_of_pos hc, stripBlockBreaks_lineBreak hc, ih]
    | false => rw [List.dropWhile_cons_of_neg (by simp [hc])]

/-- A round with a break shortens the text and changes nothing for what is left in the end. -/
theorem stripRound_eq_some {s t : List Char} (h : stripRound s = some t) :
    t.length < s.length ∧ stripBlockBreaks s = stripBlockBreaks t := by
  rw [stripRound] at h
  split at h
  next hmark =>
    obtain ⟨line, hline⟩ := List.isPrefixOf_iff_prefix.mp hmark
    have hline : s.dropWhile isLineBreak = '+' :: '+' :: '+' :: line := hline.symm
    rw [hline] at h
    have ht : (line.dropWhile (· ≠ '\n')).drop 1 = t := Option.some_inj.mp h
    constructor
    · have hlength := (List.dropWhile_sublist isLineBreak (l := s)).length_le
      have hrest := (List.dropWhile_sublist (· ≠ '\n') (l := line)).length_le
      rw [hline] at hlength
      rw [← ht, List.length_drop]
      simp only [List.length_cons] at hlength
      omega
    · rw [← stripBlockBreaks_dropWhile, hline, stripBlockBreaks_marker, ht]
  next => cases h

theorem stripRound_eq_none {s : List Char} (h : stripRound s = none) :
    stripBlockBreaks s = s.dropWhile isLineBreak := by
  rw [stripRound] at h
  split at h
  next => cases h
  next hmark =>
    rw [← stripBlockBreaks_dropWhile]
    refine StartsProse.stripBlockBreaks_eq ⟨fun c hc => ?_, fun hprefix => ?_⟩
    · have hhead := List.head?_dropWhile_not isLineBreak s
      rw [Option.mem_def.mp hc] at hhead
      simpa using hhead
    · exact hmark (List.isPrefixOf_iff_prefix.mpr hprefix)

/-- There is no round more than the text has characters. -/
theorem stripRounds_of_length_lt {rounds : Nat} {s : List Char} (h : s.length < rounds) :
    stripRounds rounds s = some (stripBlockBreaks s) := by
  induction rounds generalizing s with
  | zero => exact absurd h (Nat.not_lt_zero _)
  | succ rounds ih =>
    rw [stripRounds]
    cases hround : stripRound s with
    | some t =>
      obtain ⟨hlength, heq⟩ := stripRound_eq_some hround
      rw [heq]
      exact ih (by omega)
    | none => rw [stripRound_eq_none hround]

/-- Stripping ends; it leaves the one rest that starts with prose behind line endings and breaks
alone, which it would leave as it is, and takes off the break of any metadata. -/
theorem stripBlockBreaks_exact (s : List Char) :
    stripRounds (s.length + 1) s = some (stripBlockBreaks s) ∧
    stripBlockBreaks s <:+ s ∧
    (∀ t, stripBlockBreaks s = t ↔ LeadsTo s t ∧ StartsProse t) ∧
    stripBlockBreaks (stripBlockBreaks s) = stripBlockBreaks s ∧
    ∀ data : Json.Fields, stripBlockBreaks
      ("+++ ".toList ++ (Json.Value.ofFields data).compact ++ ['\n', '\n'] ++ s) =
        stripBlockBreaks s := by
  refine ⟨stripRounds_of_length_lt (Nat.lt_succ_self _), stripBlockBreaks_isSuffix s,
    fun t => stripBlockBreaks_eq_iff, ?_, fun data => stripBlockBreaks_metadata data s⟩
  exact (StartsProse.strip s).stripBlockBreaks_eq

end MystNotebook
