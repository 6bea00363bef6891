import MystNotebook.Text.Line

/-! Image references in a Markdown text: `![alt](url)` or `![alt](<url>)`, either with a quoted
title behind the url. A backslash takes the character after it into alt, url or title, unless that
character is a newline. References are found from left to right and do not overlap. -/
namespace MystNotebook.Attachment
open Text

structure ImageReference where
  /-- As written, between the square brackets. -/
  alt : List Char
  /-- Whether the url stands between angle brackets. -/
  angled : Bool
  /-- As written. -/
  url : List Char
  /-- The title with the blanks before it, empty without a title. -/
  title : List Char
  deriving DecidableEq, Repr

/-- The reference as it stands in the text. -/
def ImageReference.source (r : ImageReference) : List Char :=
  ['!', '['] ++ r.alt ++ [']', '('] ++ (if r.angled then ['<'] ++ r.url ++ ['>'] else r.url) ++
    r.title ++ [')']

/-- The longest start made of escaped characters and of others that `plain` accepts, and the rest.
-/
def escapedSpan (plain : Char → Bool) : List Char → List Char × List Char
  | [] => ([], [])
  | [c] => if c ≠ '\\' ∧ plain c then ([c], []) else ([], [c])
  | c :: c' :: s =>
    if c = '\\' then
      if c' = '\n' then ([], c :: c' :: s)
      else
        let (span, rest) := escapedSpan plain s
        (c :: c' :: span, rest)
    else if plain c then
      let (span, rest) := escapedSpan plain (c' :: s)
      (c :: span, rest)
    else ([], c :: c' :: s)

theorem escapedSpan_append (plain : Char → Bool) (s : List Char) :
    (escapedSpan plain s).1 ++ (escapedSpan plain s).2 = s := by
  fun_induction escapedSpan plain s <;> simp_all

def inAlt (c : Char) : Bool := c ≠ ']'

def inAngles (c : Char) : Bool := c ≠ '<' && c ≠ '>' && c ≠ '\n'

def inBareUrl (c : Char) : Bool := !isBlank c && c ≠ '(' && c ≠ ')'

def inTitle (c : Char) : Bool := c ≠ '"'

/-- The quoted title and the parenthesis that closes the reference; the title and what follows. -/
def titleClosing (gap : List Char) : List Char → Option (List Char × List Char)
  | '"' :: s =>
    match (escapedSpan inTitle s).2 with
    | '"' :: ')' :: rest => some (gap ++ ['"'] ++ (escapedSpan inTitle s).1 ++ ['"'], rest)
    | _ => none
  | _ => none

/-- The end of a reference, with or without a title. -/
def closing : List Char → Option (List Char × List Char)
  | ')' :: rest => some ([], rest)
  | s =>
    if (s.takeWhile isBlank).isEmpty then none
    else titleClosing (s.takeWhile isBlank) (s.dropWhile isBlank)

theorem titleClosing_eq {gap s title rest : List Char}
    (h : titleClosing gap s = some (title, rest)) : gap ++ s = title ++ [')'] ++ rest := by
  unfold titleClosing at h
  split at h
  · rename_i s
    have hs := escapedSpan_append inTitle s
    split at h
    · rename_i tail ht
      simp only [Option.some.injEq, Prod.mk.injEq] at h
      obtain ⟨rfl, rfl⟩ := h
      rw [ht] at hs
      conv => lhs; rw [← hs]
      simp
    · simp at h
  · simp at h

theorem closing_eq {s title rest : List Char} (h : closing s = some (title, rest)) :
    s = title ++ [')'] ++ rest := by
  unfold closing at h
  split at h
  · simp_all
  · rename_i s _
    split at h
    · simp at h
    · rw [← titleClosing_eq h, List.takeWhile_append_dropWhile]

def angledUrl (alt : List Char) : List Char → Option (ImageReference × List Char)
  | '<' :: s =>
    match (escapedSpan inAngles s).2 with
    | '>' :: rest =>
      (closing rest).map fun e => (⟨alt, true, (escapedSpan inAngles s).1, e.1⟩, e.2)
    | _ => none
  | _ => none

def bareUrl (alt : List Char) (s : List Char) : Option (ImageReference × List Char) :=
  if (escapedSpan inBareUrl s).1.isEmpty then none
  else (closing (escapedSpan inBareUrl s).2).map fun e =>
    (⟨alt, false, (escapedSpan inBareUrl s).1, e.1⟩, e.2)

/-- The reference that the text starts with, and what follows it. -/
def ImageReference.read : List Char → Option (ImageReference × List Char)
  | '!' :: '[' :: s =>
    match (escapedSpan inAlt s).2 with
    | ']' :: '(' :: rest =>
      (angledUrl (escapedSpan inAlt s).1 rest).or (bareUrl (escapedSpan inAlt s).1 rest)
    | _ => none
  | _ => none

theorem angledUrl_eq {alt s rest : List Char} {r : ImageReference}
    (h : angledUrl alt s = some (r, rest)) :
    ['!', '['] ++ alt ++ [']', '('] ++ s = r.source ++ rest := by
  unfold angledUrl at h
  split at h
  · rename_i s
    have hs := escapedSpan_append inAngles s
    split at h
    · rename_i tail ht
      obtain ⟨e, hc, hr⟩ := Option.map_eq_some_iff.1 h
      simp only [Prod.mk.injEq] at hr
      obtain ⟨rfl, rfl⟩ := hr
      rw [ht, closing_eq hc] at hs
      conv => lhs; rw [← hs]
      simp [ImageReference.source]
    · simp at h
  · simp at h

theorem bareUrl_eq {alt s rest : List Char} {r : ImageReference}
    (h : bareUrl alt s = some (r, rest)) :
    ['!', '['] ++ alt ++ [']', '('] ++ s = r.source ++ rest := by
  unfold bareUrl at h
  split at h
  · simp at h
  · have hs := escapedSpan_append inBareUrl s
    obtain ⟨e, hc, hr⟩ := Option.map_eq_some_iff.1 h
    simp only [Prod.mk.injEq] at hr
    obtain ⟨rfl, rfl⟩ := hr
    rw [closing_eq hc] at hs
    conv => lhs; rw [← hs]
    simp [ImageReference.source]

/-- Nothing is lost: the reference and the rest make up the text. -/
theorem ImageReference.read_eq {s rest : List Char} {r : ImageReference}
    (h : ImageReference.read s = some (r, rest)) : s = r.source ++ rest := by
  unfold ImageReference.read at h
  split at h
  · rename_i s
    have hs := escapedSpan_append inAlt s
    split at h
    · rename_i tail ht
      rw [ht] at hs
      rw [← hs]
      rcases Option.or_eq_some_iff.1 h with h | ⟨_, h⟩
      · rw [← angledUrl_eq h]
        simp
      · rw [← bareUrl_eq h]
        simp
    · simp at h
  · simp at h

theorem ImageReference.length_rest {s rest : List Char} {r : ImageReference}
    (h : ImageReference.read s = some (r, rest)) : rest.length < s.length := by
  rw [ImageReference.read_eq h]
  simp only [ImageReference.source, List.length_append, List.length_cons]
  omega

inductive Segment where
  | plain (c : Char)
  | image (r : ImageReference)
  deriving DecidableEq, Repr

def Segment.source : Segment → List Char
  | .plain c => [c]
  | .image r => r.source

/-- The text cut at its image references. -/
def segments (s : List Char) : List Segment :=
  match s with
  | [] => []
  | c :: cs =>
    match _h : ImageReference.read (c :: cs) with
    | some (r, rest) => .image r :: segments rest
    | none => .plain c :: segments cs
termination_by s.length
decreasing_by
  · exact ImageReference.length_rest (by assumption)
  · simp

/-- The segments make up the text. -/
theorem flatMap_source_segments (s : List Char) : (segments s).flatMap Segment.source = s := by
  fun_induction segments s with
  | case1 => rfl
  | case2 c cs r rest h ih =>
    rw [List.flatMap_cons, ih]
    exact (ImageReference.read_eq h).symm
  | case3 c cs h ih => simp [Segment.source, ih]

end MystNotebook.Attachment
