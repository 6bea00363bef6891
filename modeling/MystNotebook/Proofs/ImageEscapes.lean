import MystNotebook.Proofs.WrittenImages

/-! Backslashes in the description and in the title of an image. They are written as they are, where
each takes the character behind it; so the reference stays whole as long as none takes a newline or
what would end the text. -/
namespace MystNotebook
open Text Markdown Attachment

/-! Escaping what is marked, but no backslashes. -/

namespace Markdown

/-- Whether every backslash, from left to right, has a character to take that is plain and no
newline. -/
def takesPlain (plain : Char → Bool) : List Char → Bool
  | [] => true
  | [c] => c ≠ '\\'
  | c :: d :: s =>
    if c = '\\' then d ≠ '\n' && plain d && takesPlain plain s else takesPlain plain (d :: s)

section
variable {marked plain : Char → Bool} {c : Char} {s : List Char}

theorem escaped_cons_iff (hc : c ≠ '\\') :
    Escaped plain (c :: s) ↔ plain c = true ∧ Escaped plain s := by
  constructor
  · intro h
    cases h with
    | plain _ hplain hs => exact ⟨hplain, hs⟩
    | escape => exact absurd rfl hc
  · rintro ⟨hplain, hs⟩
    exact .plain hc hplain hs

theorem escaped_escape_iff : Escaped plain ('\\' :: c :: s) ↔ c ≠ '\n' ∧ Escaped plain s := by
  constructor
  · intro h
    cases h with
    | plain hne => exact absurd rfl hne
    | escape hc hs => exact ⟨hc, hs⟩
  · rintro ⟨hc, hs⟩
    exact .escape hc hs

theorem not_escaped_backslash : ¬ Escaped plain ['\\'] := by
  intro h
  cases h with
  | plain hne => exact hne rfl

theorem escapeMarked_cons_marked (h : marked c = true) (s : List Char) :
    escapeMarked marked (c :: s) = '\\' :: c :: escapeMarked marked s := by
  simp [escapeMarked, h]

theorem escapeMarked_cons (h : marked c = false) (s : List Char) :
    escapeMarked marked (c :: s) = c :: escapeMarked marked s := by
  simp [escapeMarked, h]

/-- A marked character needs no backslash of the text, and one that has one takes it apart from the
backslash of its own. -/
theorem escaped_escapeMarked_iff (hbackslash : marked '\\' = false) (hnewline : marked '\n' = false)
    (hplain : ∀ c, marked c = false → plain c = true) :
    Escaped plain (escapeMarked marked s) ↔ takesPlain plain s = true := by
  have hescape : ∀ {c}, marked c = true → c ≠ '\\' ∧ c ≠ '\n' := fun hc =>
    ⟨fun h => by simp [h, hbackslash] at hc, fun h => by simp [h, hnewline] at hc⟩
  have hother : ∀ {c} (s : List Char), c ≠ '\\' →
      (Escaped plain (escapeMarked marked (c :: s)) ↔ Escaped plain (escapeMarked marked s)) := by
    intro c s hc
    cases hmarked : marked c with
    | true =>
      rw [escapeMarked_cons_marked hmarked, escaped_escape_iff]
      simp [(hescape hmarked).2]
    | false =>
      rw [escapeMarked_cons hmarked, escaped_cons_iff hc]
      simp [hplain c hmarked]
  fun_induction takesPlain plain s with
  | case1 => simp [escapeMarked, Escaped.nil]
  | case2 c =>
    by_cases hc : c = '\\'
    · subst hc
      simp [escapeMarked, hbackslash, not_escaped_backslash]
    · rw [hother [] hc]
      simp [escapeMarked, Escaped.nil, hc]
  | case3 d s ih =>
    rw [escapeMarked_cons hbackslash]
    cases hmarked : marked d with
    | true =>
      rw [escapeMarked_cons_marked hmarked, escaped_escape_iff,
        escaped_cons_iff (hescape hmarked).1]
      simp [(hescape hmarked).2, ih]
    | false =>
      rw [escapeMarked_cons hmarked, escaped_escape_iff]
      simp [hplain d hmarked, ih]
  | case4 c d s hc ih => exact (hother _ hc).trans ih

end

end Markdown

/-! Quotes behind backslashes. -/

namespace Attachment

/-- Every quote stands behind a backslash. -/
def Guarded (s : List Char) : Prop :=
  ∀ before after, s = before ++ '"' :: after → before.getLast? = some '\\'

theorem guarded_nil : Guarded [] := fun before after h => by simp at h

theorem Guarded.cons {c : Char} {s : List Char} (hc : c ≠ '"') (h : Guarded s) :
    Guarded (c :: s) := by
  intro before after heq
  rcases before with _ | ⟨d, before⟩
  · exact absurd (List.cons.inj heq).1 hc
  · have hlast := h before after (List.cons.inj heq).2
    rw [List.getLast?_cons, hlast]
    rfl

theorem Guarded.escape {s : List Char} (h : Guarded s) (c : Char) : Guarded ('\\' :: c :: s) := by
  intro before after heq
  rcases before with _ | ⟨d, _ | ⟨e, before⟩⟩
  · exact absurd (List.cons.inj heq).1 (by decide)
  · simp [← (List.cons.inj heq).1]
  · have hlast := h before after (List.cons.inj (List.cons.inj heq).2).2
    rw [List.getLast?_cons_cons, List.getLast?_cons, hlast]
    rfl

theorem Escaped.guarded {s : List Char} (h : Escaped inTitle s) : Guarded s := by
  induction h with
  | nil => exact guarded_nil
  | plain _ hplain _ ih => exact ih.cons (by simpa [inTitle] using hplain)
  | escape _ _ ih => exact ih.escape _

theorem guarded_escapeMarked (s : List Char) : Guarded (escapeMarked (· == '"') s) := by
  induction s with
  | nil => exact guarded_nil
  | cons c s ih =>
    by_cases hc : c = '"'
    · rw [escapeMarked_cons_marked (by simp [hc])]
      exact ih.escape c
    · rw [escapeMarked_cons (by simp [hc])]
      exact ih.cons hc

/-- The first quote behind which all others stand behind backslashes is only one. -/
theorem Guarded.eq_of_append {a b s t : List Char} (hs : Guarded s) (ht : Guarded t)
    (ha : a.getLast? ≠ some '\\') (hb : b.getLast? ≠ some '\\')
    (h : a ++ '"' :: s = b ++ '"' :: t) : a = b ∧ s = t := by
  have hlonger : ∀ {a b s t : List Char}, Guarded s → b.getLast? ≠ some '\\' →
      ∀ m, b = a ++ m → '"' :: s = m ++ '"' :: t → a = b ∧ s = t := by
    intro a b s t hs hb m hm hst
    rcases m with _ | ⟨d, m⟩
    · exact ⟨by simpa using hm.symm, by simpa using hst⟩
    · have hlast := hs m t (List.cons.inj hst).2
      refine absurd ?_ hb
      rw [hm, List.getLast?_append, List.getLast?_cons, hlast]
      rfl
  rcases List.append_eq_append_iff.mp h with ⟨m, hm, hst⟩ | ⟨m, hm, hst⟩
  · exact hlonger hs hb m hm hst
  · obtain ⟨hab, hts⟩ := hlonger ht ha m hm hst
    exact ⟨hab.symm, hts.symm⟩

/-- Nothing, or a quoted text behind blanks whose quotes have backslashes. -/
def GuardedTitle (title : List Char) : Prop :=
  title = [] ∨ ∃ gap text, gap ≠ [] ∧ (∀ c ∈ gap, isBlank c = true) ∧ Guarded text ∧
    title = gap ++ ['"'] ++ text ++ ['"']

theorem IsTitle.guarded {title : List Char} (h : IsTitle title) : GuardedTitle title := by
  obtain rfl | ⟨gap, text, hgap, hblank, htext, rfl⟩ := h
  · exact .inl rfl
  · exact .inr ⟨gap, text, hgap, hblank, htext.guarded, rfl⟩

theorem guardedTitle_titleText (title : Option String) : GuardedTitle (titleText title) := by
  cases title with
  | none => exact .inl rfl
  | some title =>
    refine .inr ⟨[' '], _, by simp, List.forall_mem_singleton.mpr (by decide),
      guarded_escapeMarked title.toList, ?_⟩
    rw [titleText, replace_eq_escapeMarked]
    rfl

theorem getLast?_ne_backslash {gap : List Char} (h : ∀ b ∈ gap, isBlank b = true) :
    gap.getLast? ≠ some '\\' := fun hlast =>
  absurd (h _ (List.mem_of_getLast? hlast)) (by decide)

theorem eq_of_append_blanks {x y gap gap' : List Char} {c d : Char} (hc : isBlank c = false)
    (hd : isBlank d = false) (hgap : ∀ b ∈ gap, isBlank b = true)
    (hgap' : ∀ b ∈ gap', isBlank b = true) (h : x ++ [c] ++ gap = y ++ [d] ++ gap') :
    x = y ∧ c = d ∧ gap = gap' := by
  have hdrop : ∀ {x gap : List Char} {c : Char}, isBlank c = false →
      (∀ b ∈ gap, isBlank b = true) →
      (x ++ [c] ++ gap).reverse.dropWhile isBlank = (x ++ [c]).reverse := fun hc hgap => by
    rw [List.reverse_append, List.dropWhile_append_of_pos (by simpa using hgap)]
    simp [hc]
  have hreverse : (x ++ [c]).reverse = (y ++ [d]).reverse := by
    rw [← hdrop hc hgap, ← hdrop hd hgap', h]
  have hfront := List.reverse_injective hreverse
  obtain ⟨hxy, hcd⟩ := List.append_singleton_inj.mp hfront
  rw [hfront] at h
  exact ⟨hxy, hcd, List.append_cancel_left h⟩

/-- The title of a reference begins behind the last character that is no blank and no quote. -/
theorem GuardedTitle.eq_of_append {x y title title' : List Char} {c d : Char}
    (h : GuardedTitle title) (h' : GuardedTitle title') (hc : isBlank c = false ∧ c ≠ '"')
    (hd : isBlank d = false ∧ d ≠ '"') (heq : x ++ [c] ++ title = y ++ [d] ++ title') :
    x = y ∧ c = d ∧ title = title' := by
  have hshort : ∀ {x y : List Char} {c : Char}, c ≠ '"' → x ++ [c] ≠ y ++ ['"'] :=
    fun hc h => hc (List.append_singleton_inj.mp h).2
  have hlast : ∀ {x gap : List Char} {c : Char}, gap ≠ [] → (∀ b ∈ gap, isBlank b = true) →
      (x ++ [c] ++ gap).getLast? ≠ some '\\' := fun hgap hblank => by
    rw [List.getLast?_append_of_ne_nil _ hgap]
    exact getLast?_ne_backslash hblank
  obtain rfl | ⟨gap, text, hgap, hblank, htext, rfl⟩ := h
  · obtain rfl | ⟨gap', text', hgap', hblank', htext', rfl⟩ := h'
    · simpa using heq
    · refine absurd ?_ (hshort hc.2 (x := x) (y := y ++ [d] ++ gap' ++ ['"'] ++ text'))
      simpa using heq
  · obtain rfl | ⟨gap', text', hgap', hblank', htext', rfl⟩ := h'
    · refine absurd ?_ (hshort hd.2 (x := y) (y := x ++ [c] ++ gap ++ ['"'] ++ text))
      simpa using heq.symm
    · simp only [← List.append_assoc] at heq
      have hquote : x ++ [c] ++ gap ++ '"' :: text = y ++ [d] ++ gap' ++ '"' :: text' := by
        simpa using (List.append_singleton_inj.mp heq).1
      obtain ⟨hfront, rfl⟩ :=
        htext.eq_of_append htext' (hlast hgap hblank) (hlast hgap' hblank') hquote
      obtain ⟨hxy, hcd, rfl⟩ := eq_of_append_blanks hc.1 hd.1 hblank hblank' hfront
      exact ⟨hxy, hcd, rfl⟩

end Attachment

/-! One image. -/

/-- An image with this description and this title. -/
def picture (alt title : Option String) : Image := { url := "a.png", alt := alt, title := title }

section
variable {alt title : Option String}

theorem reference_picture (alt title : Option String) :
    (picture alt title).reference =
      ⟨escapeBrackets (alt.getD "").toList, false, "a.png".toList, titleText title⟩ := by
  -- stated of the field: with the url put in, the branch that is not taken would be evaluated
  have hangles : needsAngles (picture alt title).url.toList = false :=
    (by decide : needsAngles "a.png".toList = false)
  have hurl : escapeParentheses (picture alt title).url.toList = "a.png".toList :=
    (by decide : escapeParentheses "a.png".toList = "a.png".toList)
  simp only [Image.reference, hangles, hurl, Bool.false_eq_true, if_false]
  rfl

/-- Nothing but the reference that the image is written as has its text and its url. -/
theorem eq_reference_of_source {r : ImageReference} (hr : r.Valid) (hurl : r.url = "a.png".toList)
    (hsource : r.source = imageText (picture alt title)) : r = (picture alt title).reference := by
  rw [← Image.source_reference, reference_picture] at hsource
  rw [reference_picture]
  obtain ⟨ralt, angled, url, rtitle⟩ := r
  obtain rfl : url = "a.png".toList := hurl
  have htitle : GuardedTitle rtitle := hr.title.guarded
  have htitle' := guardedTitle_titleText title
  cases angled with
  | true =>
    have hends : ralt ++ "](<a.png".toList ++ ['>'] ++ rtitle =
        escapeBrackets (alt.getD "").toList ++ "](a.pn".toList ++ ['g'] ++ titleText title := by
      refine (List.append_left_inj [')']).mp ?_
      simpa [ImageReference.source] using hsource
    exact absurd (htitle.eq_of_append htitle' (by decide) (by decide) hends).2.1 (by decide)
  | false =>
    have hends : ralt ++ "](a.pn".toList ++ ['g'] ++ rtitle =
        escapeBrackets (alt.getD "").toList ++ "](a.pn".toList ++ ['g'] ++ titleText title := by
      refine (List.append_left_inj [')']).mp ?_
      simpa [ImageReference.source] using hsource
    obtain ⟨halt, -, rfl⟩ := htitle.eq_of_append htitle' (by decide) (by decide) hends
    rw [List.append_cancel_right halt]

theorem isTitle_titleText_iff :
    IsTitle (titleText title) ↔ ∀ t ∈ title, takesPlain inTitle t.toList = true := by
  have hescaped : ∀ t : List Char, Escaped inTitle (escapeMarked (· == '"') t) ↔
      takesPlain inTitle t = true := fun t =>
    escaped_escapeMarked_iff (by decide) (by decide) fun c hc => by simpa [inTitle] using hc
  cases title with
  | none => simp [titleText, IsTitle]
  | some t =>
    have hquoted : titleText (some t) =
        [' '] ++ ['"'] ++ escapeMarked (· == '"') t.toList ++ ['"'] := by
      rw [titleText, replace_eq_escapeMarked]
      rfl
    have hspace : ∀ c ∈ [' '], isBlank c = true := List.forall_mem_singleton.mpr (by decide)
    simp only [Option.mem_def, Option.some_inj, forall_eq', ← hescaped, hquoted]
    constructor
    · rintro (hnil | ⟨gap, text, hgap, hblank, htext, heq⟩)
      · simp at hnil
      · have hquote : [' '] ++ '"' :: escapeMarked (· == '"') t.toList = gap ++ '"' :: text := by
          simpa using (List.append_singleton_inj.mp heq).1
        obtain ⟨-, rfl⟩ := (guarded_escapeMarked t.toList).eq_of_append htext.guarded (by decide)
          (getLast?_ne_backslash hblank) hquote
        exact htext
    · exact fun htext => .inr ⟨[' '], _, by simp, hspace, htext, rfl⟩

theorem valid_reference_iff : (picture alt title).reference.Valid ↔
    takesPlain inAlt (alt.getD "").toList = true ∧
      ∀ t ∈ title, takesPlain inTitle t.toList = true := by
  have halt : Escaped inAlt (escapeBrackets (alt.getD "").toList) ↔
      takesPlain inAlt (alt.getD "").toList = true := by
    rw [escapeBrackets_eq]
    refine escaped_escapeMarked_iff (by decide) (by decide) fun c hc => ?_
    simp only [Bool.or_eq_false_iff, beq_eq_false_iff_ne] at hc
    simpa [inAlt] using hc.2
  have hspan : Escaped inBareUrl (escapedSpan inBareUrl "a.png".toList).1 := escaped_escapedSpan _
  have hurl : "a.png".toList ≠ [] ∧ Escaped inBareUrl "a.png".toList := ⟨by decide, hspan⟩
  rw [reference_picture, ← halt, ← isTitle_titleText_iff]
  exact ⟨fun h => ⟨h.alt, h.title⟩, fun h => ⟨h.1, hurl, h.2⟩⟩

theorem write_image (separators : Bool) (i : Image) :
    write separators [.paragraph [.leaf (.image i)]] = String.ofList (imageText i ++ ['\n']) := by
  have hpage : (draftOf separators [.paragraph [.leaf (.image i)]]).page =
      (imageText i ++ ['\n']).reverse := by
    rw [draftOf_paragraph, List.reverse_append]
    simp [Draft.atLineStart, Draft.push, writeInlines, writeNode, Draft.leaf, Draft.page_inline]
  rw [write, hpage, List.reverse_reverse]

/-- Whether the first reference in the written image is the whole of it. -/
def ReadWhole (separators : Bool) (i : Image) : Prop :=
  ∃ r rest, segments (write separators [.paragraph [.leaf (.image i)]]).toList = .image r :: rest ∧
    r.source = imageText i ∧ r.url = i.url.toList

theorem segments_picture (separators : Bool) (h : (picture alt title).reference.Valid) :
    segments (write separators [.paragraph [.leaf (.image (picture alt title))]]).toList =
      [.image (picture alt title).reference, .plain '\n'] := by
  have hstarts : (picture alt title).reference.Starts (imageText (picture alt title) ++ ['\n'])
      ['\n'] := ⟨h, by rw [Image.source_reference]⟩
  have hread := hstarts.read_of_head (by rw [reference_picture]) fun u t => by
    rw [reference_picture]
    exact fun heq => absurd (List.cons.inj heq).1 (by decide)
  rw [write_image, String.toList_ofList, segments_of_read hread, segments_plain (by decide),
    segments]

theorem readWhole_iff (separators : Bool) :
    ReadWhole separators (picture alt title) ↔ (picture alt title).reference.Valid := by
  constructor
  · rintro ⟨r, rest, hsegments, hsource, hurl⟩
    have hr : r.Valid := (scan_segments _).valid (hsegments ▸ List.mem_cons_self)
    exact eq_reference_of_source hr hurl hsource ▸ hr
  · intro h
    refine ⟨_, _, segments_picture separators h, Image.source_reference _, ?_⟩
    rw [reference_picture]
    rfl

/-- The first reference in a written image is the whole image exactly if each backslash of the
description and of the title has a character to take, other than a newline and what ends the text;
and then a known image is embedded. -/
theorem readWhole_picture_iff (separators : Bool) (alt title : Option String) :
    write separators [.paragraph [.leaf (.image (picture alt title))]] =
        String.ofList (imageText (picture alt title) ++ ['\n']) ∧
      (ReadWhole separators (picture alt title) ↔
        takesPlain inAlt (alt.getD "").toList = true ∧
          ∀ t ∈ title, takesPlain inTitle t.toList = true) ∧
      ∀ (images : ImageMap) (image : ImageData), ReadWhole separators (picture alt title) →
        images.lookup "a.png" = some image →
        embed images (write separators [.paragraph [.leaf (.image (picture alt title))]]) =
          (String.ofList
              (attachmentReference (escapeBrackets (alt.getD "").toList) "a.png" ++ ['\n']),
            some ⟨[("a.png", [(image.mime, image.data)])]⟩) := by
  refine ⟨write_image separators _, (readWhole_iff separators).trans valid_reference_iff, ?_⟩
  intro images image hwhole himage
  have hsegments := segments_picture separators ((readWhole_iff separators).mp hwhole)
  have htarget : (picture alt title).reference.target = "a.png" := by
    rw [reference_picture]
    exact (by decide : String.ofList (unescapeUrl "a.png".toList) = "a.png")
  have hname : freeName (baseName "a.png") .empty = "a.png" := by decide
  have hnaming := @Naming.name_of_none {} "a.png" rfl image
  rw [hname] at hnaming
  rw [embed, hsegments]
  simp only [redirect, htarget, himage, hnaming]
  rw [reference_picture]
  rfl

/-- Backslashes that take letters and brackets that open, as in formulas. -/
theorem readWhole_picture_formula :
    ReadWhole true (picture (some "\\alpha \\[x]") (some "say \"\\beta\"")) ∧
      embed [("a.png", ⟨"image/png", "AA=="⟩)] (write true
          [.paragraph [.leaf (.image (picture (some "\\alpha \\[x]") (some "say \"\\beta\"")))]]) =
        ("![\\alpha \\\\[x\\]](attachment:a.png)\n",
          some ⟨[("a.png", [("image/png", "AA==")])]⟩) := by
  obtain ⟨-, hiff, hembed⟩ :=
    readWhole_picture_iff true (some "\\alpha \\[x]") (some "say \"\\beta\"")
  have hwhole := hiff.mpr (by decide)
  exact ⟨hwhole, (hembed _ _ hwhole rfl).trans (by decide)⟩

/-- A backslash at the end of the description or of the title takes what would end it. -/
theorem readWhole_lastBackslash :
    ¬ ReadWhole true (picture (some "a\\") none) ∧ ¬ ReadWhole true (picture none (some "a\\")) ∧
      embed [("a.png", ⟨"image/png", "AA=="⟩)]
          (write true [.paragraph [.leaf (.image (picture (some "a\\") none))]]) =
        ("![a\\](a.png)\n", none) := by
  refine ⟨fun h => ?_, fun h => ?_, ?_⟩
  · have hvalid := valid_reference_iff.mp ((readWhole_iff true).mp h)
    exact absurd hvalid.1 (by decide)
  · have hvalid := valid_reference_iff.mp ((readWhole_iff true).mp h)
    exact absurd (hvalid.2 _ rfl) (by decide)
  · have hwrite : write true [.paragraph [.leaf (.image (picture (some "a\\") none))]] =
        "![a\\](a.png)\n" := by decide
    have hsegments : segments "![a\\](a.png)\n".toList = "![a\\](a.png)\n".toList.map .plain := by
      cbv
    rw [hwrite, embed, hsegments]
    decide

end

end MystNotebook
