import MystNotebook.Proofs.AlikeDrafts

/-! Writers that keep drafts alike. What such a writer adds to alike drafts is the same text. Where
a line starts it may tell whether there is an empty line above, but then the texts differ in
newlines only, or something has been shown and they end the same, so that the drafts are alike from
there on. -/
namespace MystNotebook.Markdown
open Text Draft

namespace Draft

/-- What has become of two drafts where a line starts, the second of them below an empty line. -/
inductive Settle (d b e f : Draft) : Prop where
  /-- Nothing has been shown; above an empty line there is no more to add than elsewhere. -/
  | quiet {s s' : List Char} (extends₁ : Extends s d e) (extends₂ : Extends s' b f)
      (newlines₁ : Newlines s) (newlines₂ : Newlines s') (length_le : s'.length ≤ s.length)
      (lineStart₁ : e.lineStart = true) (lineStart₂ : f.lineStart = true)
  /-- Both texts show something, and they end the same. -/
  | shown {s s' : List Char} (extends₁ : Extends s d e) (extends₂ : Extends s' b f)
      (likewise : Likewise s s') (lineStart : e.lineStart = f.lineStart)

variable {d d' b e f g h : Draft} {s s' : List Char}

/-- A text that shows something hides what was there before. -/
theorem alike_of_sameEnd (hsame : SameEnd s s') (he : Extends s d e) (hf : Extends s' b f)
    (hstart : e.lineStart = f.lineStart) : Alike e f := by
  refine ⟨hstart, ?_, ?_⟩
  · rw [he.known, hf.known]
    exact hsame.head?_reverse_append _ _
  · rw [endsWithBlankLine_known, endsWithBlankLine_known, he.known, hf.known, Bool.eq_iff_iff,
      beq_iff_eq, beq_iff_eq]
    exact hsame.take_reverse_append _ _

/-- Newlines in front change nothing. -/
theorem Settle.prepend (he : Extends s d e) (hf : Extends s' b f) (hs : Newlines s)
    (hs' : Newlines s') (hle : s'.length ≤ s.length) (hnext : Settle e f g h) :
    Settle d b g h := by
  cases hnext with
  | @quiet t t' hg hh ht ht' hle' hgstart hhstart =>
    refine .quiet (he.trans hg) (hf.trans hh) (newlines_append.mpr ⟨hs, ht⟩)
      (newlines_append.mpr ⟨hs', ht'⟩) ?_ hgstart hhstart
    rw [List.length_append, List.length_append]
    omega
  | shown hg hh hlike hstart =>
    exact .shown (he.trans hg) (hf.trans hh) (hlike.prepend hs.blanks hs'.blanks) hstart

end Draft

/-- What the first writes where a line starts settles with what the second writes below an empty
line. -/
def Settles (write write' : Draft → Draft) : Prop :=
  ∀ d b : Draft, d.Clear → b.Apart → Settle d b (write d) (write' b)

/-- Where drafts are alike the text is the same, and where they are not the writer settles. -/
structure Uniform (write : Draft → Draft) : Prop where
  agree : ∀ d d' : Draft, Alike d d' → Agree d d' (write d) (write d')
  settles : Settles write write

section
variable {write write' next : Draft → Draft} {s s' : List Char}

/-- Whoever writes on behind two writers that settle finds the drafts either where lines start or
alike. -/
theorem Settles.andThen (h : Settles write write') (hnext : Uniform next) :
    Settles (fun d => next (write d)) (fun d => next (write' d)) := by
  intro d b hd hb
  cases h d b hd hb with
  | quiet he hf hs hs' hle hestart hfstart =>
    have hclear : (write d).Clear := hd.of_newlines hs he hestart
    have hapart : (write' b).Apart := hb.of_newlines hs' hf hfstart
    exact (hnext.settles _ _ hclear hapart).prepend he hf hs hs' hle
  | shown he hf hlike hstart =>
    have halike : Alike (write d) (write' b) := alike_of_sameEnd hlike.ending he hf hstart
    obtain ⟨t, hg, hh, hnextAlike⟩ := hnext.agree _ _ halike
    exact .shown (he.trans hg) (hf.trans hh) (hlike.append t) hnextAlike.lineStart

theorem Uniform.andThen (h : Uniform write) (hnext : Uniform next) :
    Uniform fun d => next (write d) where
  agree d d' halike := by
    obtain ⟨s, hs, hs', hwritten⟩ := h.agree d d' halike
    exact Agree.trans ⟨s, hs, hs', hwritten⟩ (hnext.agree _ _ hwritten)
  settles := h.settles.andThen hnext

theorem Uniform.congr (h : Uniform write) (heq : ∀ d, write' d = write d) : Uniform write' := by
  rwa [funext heq]

/-! Steps that do not look back. -/

theorem uniform_of_extends (hwrite : ∀ d, Extends s d (write d))
    (hstart : ∀ d d' : Draft, d.lineStart = d'.lineStart →
      (write d).lineStart = (write d').lineStart)
    (hline : Newlines s → ∀ d : Draft, d.lineStart = true → (write d).lineStart = true) :
    Uniform write where
  agree d d' halike :=
    ⟨s, hwrite d, hwrite d',
      halike.of_extends (hwrite d) (hwrite d') (hstart d d' halike.lineStart)⟩
  settles d b hd hb := by
    by_cases hs : Newlines s
    · exact .quiet (hwrite d) (hwrite b) hs hs (Nat.le_refl _) (hline hs d hd.lineStart)
        (hline hs b hb.lineStart)
    · exact .shown (hwrite d) (hwrite b) (likewise_self hs)
        (hstart d b (hd.lineStart.trans hb.lineStart.symm))

theorem uniform_id : Uniform fun d => d :=
  uniform_of_extends Extends.refl (fun _ _ h => h) fun _ _ h => h

theorem uniform_push (s : List Char) : Uniform (·.push s) :=
  uniform_of_extends (fun d => extends_push d s) (fun _ _ h => h) fun _ _ h => h

theorem uniform_atLineStart : Uniform atLineStart :=
  uniform_of_extends (s := []) (fun _ => ⟨rfl, rfl⟩) (fun _ _ _ => rfl) fun _ _ _ => rfl

theorem uniform_report (nodeType message : String) : Uniform (·.report nodeType message) :=
  uniform_of_extends (s := []) (fun _ => ⟨rfl, rfl⟩) (fun _ _ h => h) fun _ _ h => h

theorem uniform_inline (s : List Char) : Uniform (·.inline s) := by
  by_cases hs : s = []
  · rw [hs]
    exact uniform_id
  · have hne : s.isEmpty = false := List.isEmpty_eq_false_iff.mpr hs
    have hpush : Uniform fun d : Draft =>
        { d.push s with lineStart := s.getLast? == some '\n' } :=
      uniform_of_extends (s := s) (fun _ => ⟨rfl, rfl⟩) (fun _ _ _ => rfl)
        fun hlines _ _ => beq_iff_eq.mpr (hlines.getLast? hs)
    refine hpush.congr fun d => ?_
    rw [Draft.inline, hne, if_neg Bool.false_ne_true]

theorem settles_push (h : Likewise s s') : Settles (·.push s) (·.push s') := fun d b hd hb =>
  .shown (extends_push d s) (extends_push b s') h (hd.lineStart.trans hb.lineStart.symm)

/-! Steps that look back. -/

theorem uniform_newline : Uniform newline where
  agree d d' halike := by
    unfold newline
    rw [halike.lineStart, halike.isEmpty]
    split
    · exact ((uniform_push ['\n']).andThen uniform_atLineStart).agree d d' halike
    · exact halike.agree
  settles d b hd hb := by
    rw [hd.newline, hb.clear.newline]
    exact uniform_id.settles d b hd hb

/-- An empty line, unless there is one or nothing stands above. -/
def skipLine (d : Draft) : Draft := if !d.endsWithBlankLine && !d.isEmpty then d.push ['\n'] else d

theorem uniform_skipLine : Uniform skipLine where
  agree d d' halike := by
    unfold skipLine
    rw [halike.endsWithBlankLine, halike.isEmpty]
    split
    · exact (uniform_push ['\n']).agree d d' halike
    · exact halike.agree
  settles d b hd hb := by
    have hquiet : skipLine b = b := by simp [skipLine, hb.endsWithBlankLine]
    rw [hquiet, skipLine]
    split
    · exact .quiet (extends_push d ['\n']) (.refl b) (by simp [Newlines]) newlines_nil
        (Nat.zero_le _) hd.lineStart hb.lineStart
    · exact uniform_id.settles d b hd hb

theorem uniform_blankLine : Uniform blankLine :=
  (uniform_newline.andThen uniform_skipLine).congr fun _ => rfl

theorem uniform_separated (started : Bool) :
    Uniform fun d => if started then d.blankLine else d := by
  cases started with
  | true => exact uniform_blankLine
  | false => exact uniform_id

theorem uniform_block (s : List Char) : Uniform (·.block s) :=
  (uniform_newline.andThen (uniform_push s)).andThen uniform_atLineStart

theorem settles_block (h : Likewise s s') : Settles (·.block s) (·.block s') := by
  have hpush : Settles (fun d => d.newline.push s) (fun d => d.newline.push s') := by
    intro d b hd hb
    show Settle d b (d.newline.push s) (b.newline.push s')
    rw [hd.newline, hb.clear.newline]
    exact settles_push h d b hd hb
  exact hpush.andThen uniform_atLineStart

theorem uniform_target (label : Option String) : Uniform (·.target label) := by
  cases label with
  | none => exact uniform_id
  | some label => exact uniform_block (targetText label)

/-- At the start of a line there is no backtick to keep away from. -/
theorem uniform_inlineCode (value : List Char) : Uniform (·.inlineCode value) := by
  have hspace : Uniform fun d => if d.endsWith '`' then d.push [' '] else d := by
    constructor
    · intro d d' halike
      rw [halike.endsWith]
      split
      · exact (uniform_push [' ']).agree d d' halike
      · exact halike.agree
    · intro d b hd hb
      have htick {e : Draft} (he : e.Clear) :
          (if e.endsWith '`' then e.push [' '] else e) = e := by
        rw [he.not_endsWith (by decide), if_neg Bool.false_ne_true]
      show Settle d b (if d.endsWith '`' then _ else d) (if b.endsWith '`' then _ else b)
      rw [htick hd, htick hb.clear]
      exact uniform_id.settles d b hd hb
  have hspan : Uniform (·.inline (codeSpan value)) := uniform_inline _
  refine (hspace.andThen hspan).congr fun d => ?_
  unfold Draft.inlineCode codeSpan
  cases value.contains '`' <;> rfl

theorem uniform_rawBody (value : List Char) : Uniform (·.rawBody value) := by
  have hpush : Uniform fun d : Draft =>
      { d.push value with lineStart := value.isEmpty || value.getLast? == some '\n' } := by
    refine uniform_of_extends (s := value) (fun _ => ⟨rfl, rfl⟩) (fun _ _ _ => rfl) ?_
    intro hlines d _
    by_cases hvalue : value = []
    · simp [hvalue]
    · simp [hlines.getLast? hvalue]
  exact uniform_newline.andThen hpush

theorem uniform_leaf (l : Leaf) : Uniform (·.leaf l) := by
  cases l with
  | thematicBreak | code | math | comment => exact uniform_block _
  | text | image | inlineMath | html => exact uniform_inline _
  | inlineCode value => exact uniform_inlineCode _
  | target label => exact uniform_target (some label)
  | lineBreak => exact (uniform_push _).andThen uniform_atLineStart

/-! Around other writers. -/

variable {inside : Draft → Draft}

theorem uniform_wrapped (h : Uniform inside) (marker : List Char) :
    Uniform (·.wrapped marker inside) :=
  ((uniform_inline marker).andThen h).andThen (uniform_inline marker)

theorem uniform_link (h : Uniform inside) (url : List Char) (title : Option String) :
    Uniform (·.link url title inside) :=
  ((uniform_inline ['[']).andThen h).andThen (uniform_inline (linkEnd url title))

theorem uniform_onLine (h : Uniform inside) : Uniform fun d => (inside d.newline).newline :=
  (uniform_newline.andThen h).andThen uniform_newline

theorem uniform_flow (h : Uniform inside) (hnext : Uniform next) (phrasing : Bool) :
    Uniform (·.flow phrasing inside next) := by
  cases phrasing with
  | true => exact uniform_onLine h
  | false => exact hnext

theorem uniform_asBlock (n : Node) (h : Uniform inside) : Uniform (·.asBlock n inside) := by
  unfold Draft.asBlock
  split
  · split
    · exact uniform_block _
    · exact uniform_onLine h
  · split
    · exact uniform_onLine h
    · exact h

theorem uniform_directive (h : Uniform inside) (depth : Nat) (name : String)
    (argument : Option String) (options : List (String × String)) :
    Uniform (·.directive depth name argument options inside) :=
  ((uniform_block _).andThen h).andThen (uniform_block _)

/-! What is written on a page of its own. -/

namespace Draft
variable {d d' b : Draft}

/-- An empty page that knows what stands before it, where a line starts. -/
def ownPage (d : Draft) : Draft := { d with before := d.recent, page := [], lineStart := true }

theorem capture_eq (d : Draft) (write : Draft → Draft) :
    (d.capture write).1 = (write d.ownPage).page.reverse := rfl

theorem known_ownPage (d : Draft) : d.ownPage.known = d.recent := rfl

/-- Two characters are enough to look back at. -/
theorem take_recent (d : Draft) : d.recent.take 2 = d.known.take 2 := by
  unfold recent known
  rcases d.page with _ | ⟨a, _ | ⟨c, page⟩⟩ <;> rcases d.before with _ | ⟨c', before⟩ <;> simp

theorem head?_recent (d : Draft) : d.recent.head? = d.known.head? := by
  have htake (l : List Char) : (l.take 2).head? = l.head? := by cases l <;> rfl
  rw [← htake, take_recent, htake]

theorem endsWithBlankLine_ownPage (d : Draft) :
    d.ownPage.endsWithBlankLine = d.endsWithBlankLine := by
  rw [endsWithBlankLine_known, endsWithBlankLine_known, known_ownPage, take_recent]

theorem Alike.ownPage (h : Alike d d') : Alike d.ownPage d'.ownPage where
  lineStart := rfl
  head? := by rw [known_ownPage, known_ownPage, head?_recent, head?_recent, h.head?]
  endsWithBlankLine := by
    rw [endsWithBlankLine_ownPage, endsWithBlankLine_ownPage, h.endsWithBlankLine]

theorem Clear.ownPage (h : d.Clear) : d.ownPage.Clear := by
  refine clear_of_known rfl ?_
  rw [known_ownPage, head?_recent, ← List.head?_eq_none_iff, head?_recent, List.head?_eq_none_iff]
  exact h.known

theorem Apart.ownPage (h : b.Apart) : b.ownPage.Apart :=
  ⟨rfl, by rw [endsWithBlankLine_ownPage, h.endsWithBlankLine]⟩

theorem Extends.page_ownPage {s : List Char} {e : Draft} (h : Extends s d.ownPage e) :
    e.page.reverse = s := by
  rw [h.page]
  simp [Draft.ownPage]

theorem extends_captured (d : Draft) (write : Draft → Draft) : Extends [] d (d.capture write).2 :=
  ⟨rfl, rfl⟩

/-- Taking a text off the page leaves a line to start where one does. -/
theorem Clear.captured (h : d.Clear) (write : Draft → Draft) : (d.capture write).2.Clear := by
  refine clear_of_known ?_ h.known
  simpa [capture] using h.fresh

theorem Apart.captured (h : b.Apart) (write : Draft → Draft) : (b.capture write).2.Apart := by
  obtain ⟨r, hr⟩ := h.exists_known
  exact apart_of_known (h.clear.captured write).lineStart hr

theorem Alike.captured (h : Alike d d') (write : Draft → Draft) :
    Alike (d.capture write).2 (d'.capture write).2 := by
  refine h.of_extends (extends_captured d write) (extends_captured d' write) ?_
  simp only [capture, h.isEmpty, h.endsWith]

theorem Settle.blanks_iff {e f : Draft} (h : Settle d.ownPage b.ownPage e f) :
    Blanks e.page.reverse ↔ Blanks f.page.reverse := by
  cases h with
  | quiet he hf hs hs' =>
    rw [he.page_ownPage, hf.page_ownPage]
    exact iff_of_true hs.blanks hs'.blanks
  | shown he hf hlike =>
    rw [he.page_ownPage, hf.page_ownPage]
    exact hlike.blanks

end Draft

/-- What becomes of a captured text is uniform if it settles for any two texts of which both or none
are blank; a captured text tells no more than that of where it was captured. -/
theorem uniform_captured (h : Uniform inside) (layOut : List Char → Draft → Draft)
    (huniform : ∀ s, Uniform (layOut s))
    (hsettles : ∀ s s', (Blanks s ↔ Blanks s') → Settles (layOut s) (layOut s')) :
    Uniform fun d => layOut (d.capture inside).1 (d.capture inside).2 where
  agree d d' halike := by
    have hsame : (d.capture inside).1 = (d'.capture inside).1 := by
      obtain ⟨s, hs, hs', -⟩ := h.agree _ _ halike.ownPage
      rw [capture_eq, capture_eq, hs.page_ownPage, hs'.page_ownPage]
    rw [hsame]
    obtain ⟨t, ht, ht', hnext⟩ := (huniform _).agree _ _ (halike.captured inside)
    exact ⟨t, (extends_captured d inside).trans ht, (extends_captured d' inside).trans ht', hnext⟩
  settles d b hd hb := by
    have hblanks : Blanks (d.capture inside).1 ↔ Blanks (b.capture inside).1 := by
      rw [capture_eq, capture_eq]
      exact (h.settles _ _ hd.ownPage hb.ownPage).blanks_iff
    have hnext := hsettles _ _ hblanks _ _ (hd.captured inside) (hb.captured inside)
    exact hnext.prepend (extends_captured d inside) (extends_captured b inside) newlines_nil
      newlines_nil (Nat.le_refl 0)

/-- A layout that hides how the text in it ends. -/
theorem uniform_layout {layOut : List Char → List Char} (h : Uniform inside)
    (hlayOut : ∀ s s', Likewise (layOut s) (layOut s')) :
    Uniform fun d => (d.capture inside).2.push (layOut (d.capture inside).1) :=
  uniform_captured h (fun s d => d.push (layOut s)) (fun s => uniform_push (layOut s))
    fun s s' _ => settles_push (hlayOut s s')

/-- A term is shown on a line, which is empty for a blank one. -/
theorem uniform_term (h : Uniform inside) :
    Uniform fun d => (d.captureLine inside).2.push ((d.captureLine inside).1 ++ ['\n']) := by
  refine uniform_captured h (fun s d => d.push (joinedLine s ++ ['\n'])) (fun s => uniform_push _)
    fun s s' hblanks => ?_
  have hline {s : List Char} (hs : ¬ Blanks s) : Solid (joinedLine s ++ ['\n']) :=
    solid_line (not_blanks_joinedLine hs) (newline_not_mem_joinedLine s)
  by_cases hs : Blanks s
  · have hnil : joinedLine s = joinedLine s' := by
      rw [hs.joinedLine_eq_nil, (hblanks.mp hs).joinedLine_eq_nil]
    rw [hnil]
    exact (uniform_push _).settles
  · exact settles_push ((hline hs).likewise (hline fun hs' => hs (hblanks.mpr hs')))

/-- A captured line in the first line of a directive. -/
theorem uniform_titled {title : Draft → Draft} (htitle : Uniform title) (hbody : Uniform inside)
    (depth : Nat) (name : String) (options : List (String × String)) :
    Uniform fun d => (d.captureLine title).2.directive depth name
      (some (String.ofList (d.captureLine title).1)) options inside := by
  refine uniform_captured htitle
    (fun s d => d.directive depth name (some (String.ofList (joinedLine s))) options inside)
    (fun s => uniform_directive hbody _ _ _ _) fun s s' _ => ?_
  have hstart := settles_block (likewise_directiveStart (colonFence depth) name options s s')
  exact (hstart.andThen hbody).andThen (uniform_block _)

end
end MystNotebook.Markdown
