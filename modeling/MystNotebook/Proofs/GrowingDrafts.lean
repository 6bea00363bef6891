import MystNotebook.Proofs.LaidOutRuns

/-! Drafts that grow by texts without long runs of a character. What has been written apart, on a
page of its own, is such a text as well. -/
namespace MystNotebook.Markdown
open Text

variable {c : Char} {k : Nat}

namespace Draft

/-- The page of the second draft is that of the first with a text behind it that has only short
runs. -/
def Grows (c : Char) (k : Nat) (d d' : Draft) : Prop :=
  ∃ t, d'.page = t.reverse ++ d.page ∧ Sealed c k t

namespace Grows
variable {d d' d'' : Draft}

theorem of_page (hm : IsMark c k) (h : d'.page = d.page) : Grows c k d d' := ⟨[], h, hm.nil⟩

theorem refl (hm : IsMark c k) (d : Draft) : Grows c k d d := of_page hm rfl

theorem trans (h : Grows c k d d') (h' : Grows c k d' d'') : Grows c k d d'' := by
  obtain ⟨t, hpage, ht⟩ := h
  obtain ⟨t', hpage', ht'⟩ := h'
  refine ⟨t ++ t', ?_, ht.append ht'⟩
  rw [hpage', hpage, List.reverse_append, List.append_assoc]

theorem push (h : Grows c k d d') {s : List Char} (hs : Sealed c k s) :
    Grows c k d (d'.push s) :=
  h.trans ⟨s, rfl, hs⟩

theorem atLineStart (h : Grows c k d d') : Grows c k d d'.atLineStart := h

theorem report (h : Grows c k d d') (nodeType message : String) :
    Grows c k d (d'.report nodeType message) := h

/-- Capturing takes off the page again what it writes. -/
theorem of_captured (h : Grows c k d d') (write : Draft → Draft) :
    Grows c k d (d'.capture write).2 := h

theorem of_capturedLine (h : Grows c k d d') (write : Draft → Draft) :
    Grows c k d (d'.captureLine write).2 := h

theorem inline (h : Grows c k d d') {s : List Char} (hs : Sealed c k s) :
    Grows c k d (d'.inline s) := by
  unfold Draft.inline
  split
  · exact h
  · exact h.push hs

theorem newline (hm : IsMark c k) (h : Grows c k d d') : Grows c k d d'.newline := by
  unfold Draft.newline
  split
  · exact (h.push hm.newline).atLineStart
  · exact h

theorem blankLine (hm : IsMark c k) (h : Grows c k d d') : Grows c k d d'.blankLine := by
  simp only [Draft.blankLine]
  split
  · exact (h.newline hm).push hm.newline
  · exact h.newline hm

/-- What stands between blocks. -/
theorem separated (hm : IsMark c k) (h : Grows c k d d') (started : Bool) :
    Grows c k d (if started then d'.blankLine else d') := by
  split
  · exact h.blankLine hm
  · exact h

theorem block (hm : IsMark c k) (h : Grows c k d d') {s : List Char} (hs : Sealed c k s) :
    Grows c k d (d'.block s) :=
  ((h.newline hm).push hs).atLineStart

theorem target (hm : IsMark c k) (h : Grows c k d d') {label : Option String}
    (hlabel : ∀ s ∈ label, Sealed c k s.toList) : Grows c k d (d'.target label) := by
  cases label with
  | none => exact h
  | some label => exact h.block hm (sealed_targetText hm (hlabel label rfl))

theorem inlineCode (hm : IsMark c k) (h : Grows c k d d') {s : List Char} (hs : Sealed c k s) :
    Grows c k d (d'.inlineCode s) := by
  have hspaced : Grows c k d (if d'.endsWith '`' then d'.push [' '] else d') := by
    split
    · exact h.push (hm.fixed [' '] (by decide))
    · exact h
  simp only [Draft.inlineCode]
  split
  · exact hspaced.inline (((hm.fixed _ (by decide)).append hs).append (hm.fixed _ (by decide)))
  · exact hspaced.inline
      (((hm.fixed ['`'] (by decide)).append hs).append (hm.fixed ['`'] (by decide)))

theorem rawBody (hm : IsMark c k) (h : Grows c k d d') {s : List Char} (hs : Sealed c k s) :
    Grows c k d (d'.rawBody s) :=
  (h.newline hm).push hs

end Grows
end Draft

open Draft

/-- Whatever the draft is, it grows by a text with only short runs. -/
def Writes (c : Char) (k : Nat) (write : Draft → Draft) : Prop := ∀ d, Grows c k d (write d)

namespace Writes
variable {write : Draft → Draft}

theorem after (h : Writes c k write) {d d' : Draft} (hd : Grows c k d d') :
    Grows c k d (write d') :=
  hd.trans (h d')

/-- What is captured is what the page of its own holds in the end. -/
theorem capture (h : Writes c k write) (d : Draft) : RunsBelow c k (d.capture write).1 := by
  obtain ⟨t, hpage, ht⟩ := h { d with before := d.recent, page := [], lineStart := true }
  have hcaptured : (d.capture write).1 = t := by
    simp [Draft.capture, hpage]
  rw [hcaptured]
  exact ht.runs

theorem captureLine (hm : IsMark c k) (h : Writes c k write) (d : Draft) :
    RunsBelow c k (d.captureLine write).1 := by
  have htrimmed : RunsBelow c k (trim (d.capture write).1) :=
    (h.capture d).of_isInfix (trim_isInfix _)
  exact runsBelow_replace hm '\n' [' '] (by decide) (by decide) htrimmed

theorem wrapped (h : Writes c k write) {marker : List Char} (hmarker : Sealed c k marker)
    {d d' : Draft} (hd : Grows c k d d') : Grows c k d (d'.wrapped marker write) :=
  (h.after (hd.inline hmarker)).inline hmarker

theorem link (hm : IsMark c k) (h : Writes c k write) {url : List Char} {title : Option String}
    (hurl : Sealed c k url) (htitle : ∀ t ∈ title, Sealed c k t.toList) {d d' : Draft}
    (hd : Grows c k d d') : Grows c k d (d'.link url title write) :=
  (h.after (hd.inline (hm.fixed ['['] (by decide)))).inline (sealed_linkEnd hm hurl htitle)

theorem flow (hm : IsMark c k) (h : Writes c k write) {blocks : Draft → Draft}
    (hblocks : Writes c k blocks) (phrasing : Bool) {d d' : Draft} (hd : Grows c k d d') :
    Grows c k d (d'.flow phrasing write blocks) := by
  unfold Draft.flow
  split
  · exact (h.after (hd.newline hm)).newline hm
  · exact hblocks.after hd

theorem directive (hm : IsMark ':' k) (h : Writes ':' k write) {depth : Nat}
    (hdepth : 3 + depth < k) {name : String} {argument : Option String}
    {options : List (String × String)} (hname : RunsBelow ':' k name.toList)
    (hargument : ∀ a ∈ argument, RunsBelow ':' k a.toList) (hoptions : ∀ o ∈ options, IsTame k o)
    {d d' : Draft} (hd : Grows ':' k d d') :
    Grows ':' k d (d'.directive depth name argument options write) := by
  have hfence : RunsBelow ':' k (colonFence depth) := runsBelow_colonFence hdepth
  have hstart := sealed_directiveStart hm (by omega) hfence hname hargument hoptions
  exact (h.after (hd.block hm hstart)).block hm (hm.line hfence)

/-- A node with lines of its own, unless it is an image that only a directive can express. -/
theorem asBlock (hm : IsMark c k) {n : Node} (h : Writes c k write)
    (himage : ∀ i, n = .leaf (.image i) → i.hasDirectiveAttributes = true →
      Sealed c k (imageDirectiveText i)) {d d' : Draft} (hd : Grows c k d d') :
    Grows c k d (d'.asBlock n write) := by
  unfold Draft.asBlock
  split
  next i =>
    split
    next hi => exact hd.block hm (himage i rfl hi)
    next => exact (h.after (hd.newline hm)).newline hm
  next =>
    split
    · exact (h.after (hd.newline hm)).newline hm
    · exact h.after hd

end Writes
end MystNotebook.Markdown
