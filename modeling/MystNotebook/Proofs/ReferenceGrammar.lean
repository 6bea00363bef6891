import MystNotebook.Attachment.Embed

/-! The grammar of image references. A text has at most one reference with and at most one without
angle brackets at its start, and the scan takes the first kind where there are both; from left to
right it cuts the text at the references that do not overlap an earlier one. -/
namespace MystNotebook.Attachment
open Text

/-- Made of escaped characters and of others that `plain` accepts. -/
inductive Escaped (plain : Char → Bool) : List Char → Prop
  | nil : Escaped plain []
  | plain {c : Char} {s : List Char} : c ≠ '\\' → plain c = true → Escaped plain s →
    Escaped plain (c :: s)
  | escape {c : Char} {s : List Char} : c ≠ '\n' → Escaped plain s →
    Escaped plain ('\\' :: c :: s)

/-- Nothing, or a quoted text behind blanks. -/
def IsTitle (title : List Char) : Prop :=
  title = [] ∨ ∃ gap text, gap ≠ [] ∧ (∀ c ∈ gap, isBlank c = true) ∧ Escaped inTitle text ∧
    title = gap ++ ['"'] ++ text ++ ['"']

structure ImageReference.Valid (r : ImageReference) : Prop where
  alt : Escaped inAlt r.alt
  url : if r.angled then Escaped inAngles r.url else r.url ≠ [] ∧ Escaped inBareUrl r.url
  title : IsTitle r.title

/-- The text starts with the reference, and `rest` follows. -/
def ImageReference.Starts (r : ImageReference) (s rest : List Char) : Prop :=
  r.Valid ∧ s = r.source ++ rest

/-- The reference is the one that counts at the start of the text: one in angle brackets counts
before one without. -/
def ImageReference.Leads (r : ImageReference) (s rest : List Char) : Prop :=
  r.Starts s rest ∧
    (r.angled = false → ∀ (r' : ImageReference) (rest' : List Char),
      r'.angled = true → ¬ r'.Starts s rest')

/-! Spans of escaped text. -/

section
variable {plain : Char → Bool}

theorem escapedSpan_plain {c : Char} (hc : c ≠ '\\') (h : plain c = true) (s : List Char) :
    escapedSpan plain (c :: s) = (c :: (escapedSpan plain s).1, (escapedSpan plain s).2) := by
  cases s with
  | nil => simp [escapedSpan, hc, h]
  | cons d s => simp [escapedSpan, hc, h]

theorem escapedSpan_escape {c : Char} (hc : c ≠ '\n') (s : List Char) :
    escapedSpan plain ('\\' :: c :: s) =
      ('\\' :: c :: (escapedSpan plain s).1, (escapedSpan plain s).2) := by
  simp [escapedSpan, hc]

theorem escapedSpan_stop {c : Char} (hc : c ≠ '\\') (h : plain c = false) (s : List Char) :
    escapedSpan plain (c :: s) = ([], c :: s) := by
  cases s with
  | nil => simp [escapedSpan, h]
  | cons d s => simp [escapedSpan, hc, h]

theorem escaped_escapedSpan (s : List Char) : Escaped plain (escapedSpan plain s).1 := by
  fun_induction escapedSpan plain s with
  | case1 => exact .nil
  | case2 c h => exact .plain h.1 h.2 .nil
  | case3 => exact .nil
  | case4 => exact .nil
  | case5 c s hc span rest hspan ih =>
    rw [hspan] at ih
    exact .escape hc ih
  | case6 c d s hc h span rest hspan ih =>
    rw [hspan] at ih
    exact .plain hc h ih
  | case7 => exact .nil

/-- A span ends at the first character that is neither plain nor a backslash. -/
theorem Escaped.span_append {s : List Char} (h : Escaped plain s) {c : Char} (hc : c ≠ '\\')
    (hplain : plain c = false) (t : List Char) : escapedSpan plain (s ++ c :: t) = (s, c :: t) := by
  induction h with
  | nil => exact escapedSpan_stop hc hplain t
  | plain hd hp _ ih => rw [List.cons_append, escapedSpan_plain hd hp, ih]
  | escape hd _ ih => rw [List.cons_append, List.cons_append, escapedSpan_escape hd, ih]

end

/-! The parts of a reference behind its description. -/

theorem isTitle_of_closing {s title rest : List Char} (h : closing s = some (title, rest)) :
    IsTitle title := by
  unfold closing at h
  split at h
  next => exact .inl (by simp_all)
  next =>
    split at h
    next => cases h
    next hgap =>
      unfold titleClosing at h
      split at h
      next t _ =>
        split at h
        next =>
          simp only [Option.some.injEq, Prod.mk.injEq] at h
          refine .inr ⟨_, _, by simpa using hgap, ?_, escaped_escapedSpan t, h.1.symm⟩
          exact List.all_eq_true.mp List.all_takeWhile
        next => cases h
      next => cases h

theorem closing_of_isTitle {title : List Char} (h : IsTitle title) (rest : List Char) :
    closing (title ++ ')' :: rest) = some (title, rest) := by
  obtain rfl | ⟨gap, text, hgap, hblank, htext, rfl⟩ := h
  · rfl
  · have hs : gap ++ ['"'] ++ text ++ ['"'] ++ ')' :: rest =
        gap ++ '"' :: (text ++ '"' :: ')' :: rest) := by simp
    have hquote : isBlank '"' = false := by decide
    have hspan := htext.span_append (c := '"') (by decide) (by decide) (')' :: rest)
    have htake : (gap ++ '"' :: (text ++ '"' :: ')' :: rest)).takeWhile isBlank = gap := by
      rw [List.takeWhile_append_of_pos hblank, List.takeWhile_cons_of_neg (by simp [hquote]),
        List.append_nil]
    have hdrop : (gap ++ '"' :: (text ++ '"' :: ')' :: rest)).dropWhile isBlank =
        '"' :: (text ++ '"' :: ')' :: rest) := by
      rw [List.dropWhile_append_of_pos hblank, List.dropWhile_cons_of_neg (by simp [hquote])]
    obtain ⟨b, gap, rfl⟩ := List.exists_cons_of_ne_nil hgap
    have hb : b ≠ ')' := by
      rintro rfl
      exact absurd (hblank ')' List.mem_cons_self) (by decide)
    rw [hs, closing]
    · rw [htake, hdrop, titleClosing, hspan]
      simp
    · simpa using fun h => absurd h hb

theorem angledUrl_eq_some_iff {alt t rest : List Char} {r : ImageReference} :
    angledUrl alt t = some (r, rest) ↔
      (r.alt = alt ∧ r.angled = true ∧ Escaped inAngles r.url ∧ IsTitle r.title) ∧
        t = '<' :: (r.url ++ '>' :: (r.title ++ ')' :: rest)) := by
  constructor
  · intro h
    unfold angledUrl at h
    split at h
    next s =>
      have hs := escapedSpan_append inAngles s
      split at h
      next tail ht =>
        obtain ⟨e, hc, hr⟩ := Option.map_eq_some_iff.mp h
        simp only [Prod.mk.injEq] at hr
        obtain ⟨rfl, rfl⟩ := hr
        rw [ht, closing_eq hc] at hs
        exact ⟨⟨rfl, rfl, escaped_escapedSpan s, isTitle_of_closing hc⟩, by simpa using hs.symm⟩
      next => cases h
    next => cases h
  · rintro ⟨⟨rfl, hangled, hurl, htitle⟩, rfl⟩
    have hspan := hurl.span_append (c := '>') (by decide) (by decide) (r.title ++ ')' :: rest)
    obtain ⟨alt, angled, url, title⟩ := r
    obtain rfl : angled = true := hangled
    simp only [angledUrl, hspan, closing_of_isTitle htitle, Option.map_some]

theorem inBareUrl_of_isTitle_append {title : List Char} (h : IsTitle title) (rest : List Char) :
    ∃ c t, title ++ ')' :: rest = c :: t ∧ c ≠ '\\' ∧ inBareUrl c = false := by
  obtain rfl | ⟨gap, text, hgap, hblank, -, rfl⟩ := h
  · exact ⟨')', rest, rfl, by decide, by decide⟩
  · obtain ⟨b, gap, rfl⟩ := List.exists_cons_of_ne_nil hgap
    have hb := hblank b List.mem_cons_self
    refine ⟨b, _, rfl, ?_, by simp [inBareUrl, hb]⟩
    rintro rfl
    exact absurd hb (by decide)

theorem bareUrl_eq_some_iff {alt t rest : List Char} {r : ImageReference} :
    bareUrl alt t = some (r, rest) ↔
      (r.alt = alt ∧ r.angled = false ∧ (r.url ≠ [] ∧ Escaped inBareUrl r.url) ∧
          IsTitle r.title) ∧
        t = r.url ++ (r.title ++ ')' :: rest) := by
  constructor
  · intro h
    unfold bareUrl at h
    split at h
    next => cases h
    next hne =>
      have hs := escapedSpan_append inBareUrl t
      obtain ⟨e, hc, hr⟩ := Option.map_eq_some_iff.mp h
      simp only [Prod.mk.injEq] at hr
      obtain ⟨rfl, rfl⟩ := hr
      rw [closing_eq hc] at hs
      exact ⟨⟨rfl, rfl, ⟨by simpa using hne, escaped_escapedSpan t⟩, isTitle_of_closing hc⟩,
        by simpa using hs.symm⟩
  · rintro ⟨⟨rfl, hangled, ⟨hne, hurl⟩, htitle⟩, rfl⟩
    -- the title, or else the closing parenthesis, ends the url
    obtain ⟨c, t, ht, hc, hstop⟩ := inBareUrl_of_isTitle_append htitle rest
    have hspan := hurl.span_append hc hstop t
    rw [← ht] at hspan
    obtain ⟨alt, angled, url, title⟩ := r
    obtain rfl : angled = false := hangled
    simp only [bareUrl, hspan, closing_of_isTitle htitle, Option.map_some]
    simpa using hne

/-! Reading a reference. -/

namespace ImageReference

theorem source_append (r : ImageReference) (rest : List Char) :
    r.source ++ rest = '!' :: '[' :: (r.alt ++ ']' :: '(' ::
      if r.angled then '<' :: (r.url ++ '>' :: (r.title ++ ')' :: rest))
      else r.url ++ (r.title ++ ')' :: rest)) := by
  cases h : r.angled <;> simp [source, h]

theorem read_alt {alt : List Char} (h : Escaped inAlt alt) (t : List Char) :
    read ('!' :: '[' :: (alt ++ ']' :: '(' :: t)) = (angledUrl alt t).or (bareUrl alt t) := by
  simp only [read, h.span_append (c := ']') (by decide) (by decide)]

theorem starts_of_read {s rest : List Char} {r : ImageReference} (h : read s = some (r, rest)) :
    r.Starts s rest := by
  refine ⟨?_, read_eq h⟩
  unfold read at h
  split at h
  next s =>
    have halt : Escaped inAlt (escapedSpan inAlt s).1 := escaped_escapedSpan s
    split at h
    next =>
      rcases Option.or_eq_some_iff.mp h with h | ⟨-, h⟩
      · obtain ⟨⟨ha, hangled, hurl, htitle⟩, -⟩ := angledUrl_eq_some_iff.mp h
        exact ⟨ha ▸ halt, by rwa [if_pos hangled], htitle⟩
      · obtain ⟨⟨ha, hangled, hurl, htitle⟩, -⟩ := bareUrl_eq_some_iff.mp h
        exact ⟨ha ▸ halt, by rwa [if_neg (by simp [hangled])], htitle⟩
    next => cases h
  next => cases h

/-- The reference in angle brackets is read wherever there is one. -/
theorem Starts.read_of_angled {s rest : List Char} {r : ImageReference} (h : r.Starts s rest)
    (hangled : r.angled = true) : read s = some (r, rest) := by
  obtain ⟨⟨halt, hurl, htitle⟩, rfl⟩ := h
  rw [if_pos hangled] at hurl
  rw [source_append, if_pos hangled, read_alt halt,
    angledUrl_eq_some_iff.mpr ⟨⟨rfl, hangled, hurl, htitle⟩, rfl⟩, Option.some_or]

theorem Starts.read_eq_or {s rest : List Char} {r : ImageReference} (h : r.Starts s rest)
    (hbare : r.angled = false) :
    read s = (angledUrl r.alt (r.url ++ (r.title ++ ')' :: rest))).or (some (r, rest)) := by
  obtain ⟨⟨halt, hurl, htitle⟩, rfl⟩ := h
  have hif : ¬ r.angled = true := by simp [hbare]
  rw [if_neg hif] at hurl
  rw [source_append, if_neg hif, read_alt halt,
    bareUrl_eq_some_iff.mpr ⟨⟨rfl, hbare, hurl, htitle⟩, rfl⟩]

theorem Starts.read_of_bare {s rest : List Char} {r : ImageReference} (h : r.Starts s rest)
    (hbare : r.angled = false)
    (hno : ∀ (r' : ImageReference) (rest' : List Char), r'.angled = true → ¬ r'.Starts s rest') :
    read s = some (r, rest) := by
  have hnone : angledUrl r.alt (r.url ++ (r.title ++ ')' :: rest)) = none := by
    refine Option.eq_none_iff_forall_ne_some.mpr fun ⟨r', rest'⟩ hr' => ?_
    obtain ⟨⟨ha, hangled, hurl', htitle'⟩, ht⟩ := angledUrl_eq_some_iff.mp hr'
    refine hno r' rest' hangled ⟨⟨ha ▸ h.1.alt, by rwa [if_pos hangled], htitle'⟩, ?_⟩
    rw [h.2, source_append, source_append, if_pos hangled, if_neg (by simp [hbare]), ha, ← ht]
  rw [h.read_eq_or hbare, hnone, Option.none_or]

/-- A url that does not start with an angle bracket is never read as one in angle brackets. -/
theorem Starts.read_of_head {s rest : List Char} {r : ImageReference} (h : r.Starts s rest)
    (hbare : r.angled = false) (hhead : ∀ u t, r.url ++ u ≠ '<' :: t) :
    read s = some (r, rest) := by
  have hnone : angledUrl r.alt (r.url ++ (r.title ++ ')' :: rest)) = none := by
    refine Option.eq_none_iff_forall_ne_some.mpr fun ⟨r', rest'⟩ hr' => ?_
    exact hhead _ _ (angledUrl_eq_some_iff.mp hr').2
  rw [h.read_eq_or hbare, hnone, Option.none_or]

theorem read_eq_some_iff {s rest : List Char} {r : ImageReference} :
    read s = some (r, rest) ↔ r.Leads s rest := by
  constructor
  · refine fun h => ⟨starts_of_read h, fun hbare r' rest' hangled h' => ?_⟩
    have := h'.read_of_angled hangled
    rw [h, Option.some.injEq, Prod.mk.injEq] at this
    rw [this.1, hangled] at hbare
    cases hbare
  · rintro ⟨h, hno⟩
    cases hangled : r.angled with
    | true => exact h.read_of_angled hangled
    | false => exact h.read_of_bare hangled (hno hangled)

theorem read_eq_none_iff {s : List Char} :
    read s = none ↔ ∀ (r : ImageReference) (rest : List Char), ¬ r.Starts s rest := by
  constructor
  · intro h
    have hangled : ∀ (r : ImageReference) (rest : List Char),
        r.angled = true → ¬ r.Starts s rest := by
      intro r rest hr hstarts
      rw [hstarts.read_of_angled hr] at h
      cases h
    intro r rest hstarts
    cases hr : r.angled with
    | true => exact hangled r rest hr hstarts
    | false =>
      rw [hstarts.read_of_bare hr hangled] at h
      cases h
  · intro h
    exact Option.eq_none_iff_forall_ne_some.mpr fun ⟨r, rest⟩ hr => h r rest (starts_of_read hr)

end ImageReference

/-! The scan of a text. -/

/-- The text cut into references and other characters, from left to right: a reference where one
starts, in angle brackets if there are two, and the next character where none does. -/
inductive Scan : List Char → List Segment → Prop
  | nil : Scan [] []
  | image {s rest : List Char} {r : ImageReference} {segs : List Segment} :
    r.Leads s rest → Scan rest segs → Scan s (.image r :: segs)
  | plain {c : Char} {s : List Char} {segs : List Segment} :
    (∀ (r : ImageReference) (rest : List Char), ¬ r.Starts (c :: s) rest) →
    Scan s segs → Scan (c :: s) (.plain c :: segs)

theorem segments_of_read {s rest : List Char} {r : ImageReference}
    (h : ImageReference.read s = some (r, rest)) : segments s = .image r :: segments rest := by
  cases s with
  | nil => cases h
  | cons c cs =>
    rw [segments]
    split
    next r' rest' h' =>
      rw [h, Option.some.injEq, Prod.mk.injEq] at h'
      rw [h'.1, h'.2]
    next h' =>
      rw [h] at h'
      cases h'

theorem segments_of_read_eq_none {c : Char} {s : List Char}
    (h : ImageReference.read (c :: s) = none) :
    segments (c :: s) = .plain c :: segments s := by
  rw [segments]
  split
  next h' =>
    rw [h] at h'
    cases h'
  next => rfl

theorem scan_segments (s : List Char) : Scan s (segments s) := by
  fun_induction segments s with
  | case1 => exact .nil
  | case2 c cs r rest h ih => exact .image (ImageReference.read_eq_some_iff.mp h) ih
  | case3 c cs h ih => exact .plain (ImageReference.read_eq_none_iff.mp h) ih

theorem Scan.valid {s : List Char} {segs : List Segment} (h : Scan s segs) {r : ImageReference}
    (hr : .image r ∈ segs) : r.Valid := by
  induction h with
  | nil => cases hr
  | image hleads _ ih =>
    rcases List.mem_cons.mp hr with heq | hr
    · cases heq
      exact hleads.1.1
    · exact ih hr
  | plain _ _ ih => exact ih (List.mem_of_ne_of_mem (by simp) hr)

/-- There is no other scan. -/
theorem Scan.eq_segments {s : List Char} {segs : List Segment} (h : Scan s segs) :
    segs = segments s := by
  induction h with
  | nil => rw [segments]
  | image hleads _ ih =>
    rw [segments_of_read (ImageReference.read_eq_some_iff.mpr hleads), ih]
  | plain hnone _ ih =>
    rw [segments_of_read_eq_none (ImageReference.read_eq_none_iff.mpr hnone), ih]

end MystNotebook.Attachment
