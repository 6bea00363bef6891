import MystNotebook.Proofs.TightItems
import MystNotebook.Proofs.UniformNodes

/-! Quotes and what stands above them. The body of a quote is written on a page of its own, but it
still looks back at what stands before that page, and the gap below a first child that writes
nothing depends on it. -/
namespace MystNotebook.Markdown
open Text Draft

/-- Wherever a line starts, the same text is added. -/
def Steady (write : Draft → Draft) : Prop :=
  ∀ d d' : Draft, d.Clear → d'.Clear → ∃ s, Extends s d (write d) ∧ Extends s d' (write d')

/-- The same text but for newlines at its end. -/
def SteadyToEnd (write : Draft → Draft) : Prop :=
  ∀ d d' : Draft, d.Clear → d'.Clear → ∀ s s', Extends s d (write d) → Extends s' d' (write d') →
    trimNewlines s = trimNewlines s'

/-- Wherever a line starts, the same text is added, and whoever writes on cannot look past it: not
through nothing, and not through a newline, which is an empty line or not by what stands above. -/
def Grounded (write : Draft → Draft) : Prop :=
  ∃ s, (∀ d : Draft, d.Clear → Extends s d (write d)) ∧ s ≠ [] ∧ s ≠ ['\n']

/-! The texts of quotes. -/

theorem quoteLine_eq (line : List Char) : quoteLine line = '>' :: indentedLine 1 line := by
  unfold quoteLine indentedLine
  split <;> rfl

/-- Newlines at its end are all that a quote hides of its body. -/
theorem quoteText_inj {body body' : List Char} :
    quoteText body = quoteText body' ↔ trimNewlines body = trimNewlines body' := by
  have hlines (body : List Char) :
      fullLines (quoteText body) = (bodyLines body).map quoteLine := by
    rw [quoteText, List.flatMap_def, fullLines_flatten]
    intro line hline
    obtain ⟨l, hl, rfl⟩ := List.mem_map.mp hline
    have hnewline : '\n' ∉ l := newline_not_mem_of_mem_pieces (s := trimNewlines body) hl
    unfold quoteLine
    split
    · exact ⟨['>'], rfl, by decide⟩
    · exact ⟨['>', ' '] ++ l, rfl, by simpa using hnewline⟩
  constructor
  · intro heq
    have hmap := congrArg fullLines heq
    rw [hlines, hlines] at hmap
    refine pieces_injective (List.map_injective_iff.mpr (fun l l' hl => ?_) hmap)
    rw [quoteLine_eq, quoteLine_eq, List.cons.injEq] at hl
    exact indentedLine_inj.mp hl.2
  · intro heq
    rw [quoteText, quoteText, bodyLines, bodyLines, heq]

/-! Texts that a uniform writer adds. -/

section
variable {write next : Draft → Draft} {d d' e : Draft} {s s' : List Char}

theorem Uniform.exists_extends (h : Uniform write) (d : Draft) : ∃ s, Extends s d (write d) := by
  obtain ⟨s, hs, -⟩ := h.agree d d ⟨rfl, rfl, rfl⟩
  exact ⟨s, hs⟩

/-- On a page of its own a writer adds what it adds on the page itself. -/
theorem Uniform.capture_eq (h : Uniform write) (hd : d.Clear) (hs : Extends s d (write d)) :
    (d.capture write).1 = s := by
  have halike : Alike d d.ownPage := by
    refine ⟨hd.lineStart, ?_, (endsWithBlankLine_ownPage d).symm⟩
    rw [known_ownPage, head?_recent]
  obtain ⟨t, ht, ht', -⟩ := h.agree _ _ halike
  rw [Draft.capture_eq, ht'.page_ownPage, hs.eq ht]

/-- Before anything has been shown, the newlines are fewest below an empty line. -/
theorem Uniform.quiet (h : Uniform write) (hd : d.Clear) (he : e.Apart)
    (hs : Extends s d (write d)) (hs' : Extends s' e (write e)) (hlines : Newlines s') :
    Newlines s ∧ s'.length ≤ s.length ∧ (write d).Clear ∧ (write e).Apart := by
  cases h.settles d e hd he with
  | quiet ht ht' hnewlines hnewlines' hle hstart hstart' =>
    rw [hs.eq ht, hs'.eq ht']
    exact ⟨hnewlines, hle, hd.of_newlines hnewlines ht hstart,
      he.of_newlines hnewlines' ht' hstart'⟩
  | shown ht ht' hlike =>
    rw [hs'.eq ht'] at hlines
    exact absurd hlines hlike.ending.symm.not_newlines

/-- What is shown ends the same, and the drafts are alike. -/
theorem Uniform.shown (h : Uniform write) (hd : d.Clear) (he : e.Apart)
    (hs : Extends s d (write d)) (hs' : Extends s' e (write e)) (hshown : ¬ Newlines s') :
    SameEnd s s' ∧ Alike (write d) (write e) := by
  cases h.settles d e hd he with
  | quiet ht ht' hnewlines hnewlines' =>
    rw [hs'.eq ht'] at hshown
    exact absurd hnewlines' hshown
  | shown ht ht' hlike hstart =>
    rw [hs.eq ht, hs'.eq ht']
    exact ⟨hlike.ending, alike_of_sameEnd hlike.ending ht ht' hstart⟩

theorem Uniform.newlines_iff (h : Uniform write) (hd : d.Clear) (he : e.Apart)
    (hs : Extends s d (write d)) (hs' : Extends s' e (write e)) : Newlines s ↔ Newlines s' := by
  by_cases hlines : Newlines s'
  · exact iff_of_true (h.quiet hd he hs hs' hlines).1 hlines
  · exact iff_of_false (h.shown hd he hs hs' hlines).1.not_newlines hlines

end

/-! Below the first child. -/

/-- A line starts below another one. -/
def belowLine : Draft := { before := ['\n'] }

/-- A line starts below an empty one. -/
def belowGap : Draft := { before := ['\n', '\n'] }

theorem clear_empty : ({} : Draft).Clear := ⟨rfl, .inl rfl⟩

theorem clear_belowLine : belowLine.Clear := ⟨rfl, .inr rfl⟩

theorem apart_belowGap : belowGap.Apart := ⟨rfl, rfl⟩

section
variable {first next : Draft → Draft} {d e : Draft}

/-- An empty line is made unless there is one. -/
theorem exists_gap_of_clear (h : d.Clear) (hempty : d.isEmpty = false) :
    ∃ gap, Extends gap d d.blankLine ∧ d.blankLine.Apart ∧ (gap = [] → d.Apart) := by
  by_cases hblank : d.endsWithBlankLine = true
  · have hapart : d.Apart := ⟨h.lineStart, hblank⟩
    rw [hapart.blankLine]
    exact ⟨[], .refl d, hapart, fun _ => hapart⟩
  · have hpush : d.blankLine = d.push ['\n'] := by
      simp [blankLine, h.newline, hblank, hempty]
    rw [hpush]
    have hline : Newlines ['\n'] := by simp [Newlines]
    refine ⟨['\n'], extends_push d _, ?_, by simp⟩
    exact h.apart_of_newlines hline (extends_push d _) h.lineStart (.inr ⟨by simp, hempty⟩)

/-- Where a line starts below something, a child that shows nothing below an empty line shows
nothing either, and the rest is the same only if it has left the same empty line. -/
theorem extends_of_steadyToEnd (hfirst : Uniform first) (hnext : Uniform next)
    (hsteady : SteadyToEnd fun d => next (first d).blankLine) {s r : List Char}
    (hs : Extends s belowGap (first belowGap)) (hlines : Newlines s)
    (hr : Extends r (first belowGap) (next (first belowGap))) (hshown : ¬ Newlines r)
    (hd : d.Clear) (hempty : (first d).isEmpty = false) :
    Extends s d (first d) ∧ (first d).Apart := by
  obtain ⟨t, ht⟩ := hfirst.exists_extends d
  obtain ⟨-, hle, hclear, hapart⟩ := hfirst.quiet hd apart_belowGap ht hs hlines
  obtain ⟨gap, hgap, hbelow, hgapNil⟩ := exists_gap_of_clear hclear hempty
  -- behind the gap there is an empty line here as well, so the texts differ before the rest only
  have hrest : Extends r (first d).blankLine (next (first d).blankLine) := by
    obtain ⟨r', hr', hr'', -⟩ := hnext.agree _ _ (hapart.alike hbelow)
    rwa [hr.eq hr']
  have hwritten : Extends (s ++ r) belowGap (next (first belowGap).blankLine) := by
    rw [hapart.blankLine]
    exact hs.trans hr
  have htrim :=
    hsteady d belowGap hd apart_belowGap.clear _ _ ((ht.trans hgap).trans hrest) hwritten
  rw [trimNewlines_append_of_not_newlines hshown, trimNewlines_append_of_not_newlines hshown,
    List.append_left_inj] at htrim
  have hlength := congrArg List.length htrim
  rw [List.length_append] at hlength
  have hnil : gap = [] := List.eq_nil_of_length_eq_zero (by omega)
  rw [hnil, List.append_nil] at htrim
  exact ⟨htrim ▸ ht, hgapNil hnil⟩

/-- Behind a child that shows nothing the rest stays the same only if the child leaves at least two
newlines: one is not enough at the start of everything, and none is not below a line. -/
theorem grounded_of_newlines (hfirst : Uniform first) (hnext : Uniform next)
    (hsteady : SteadyToEnd fun d => next (first d).blankLine) {s r : List Char}
    (hs : Extends s belowGap (first belowGap)) (hlines : Newlines s)
    (hr : Extends r (first belowGap) (next (first belowGap))) (hshown : ¬ Newlines r) :
    Grounded first := by
  have hsame {d : Draft} (hd : d.Clear) (hempty : (first d).isEmpty = false) :=
    extends_of_steadyToEnd hfirst hnext hsteady hs hlines hr hshown hd hempty
  -- below a line, nothing at all would not make an empty line
  have hne : s ≠ [] := by
    rintro rfl
    obtain ⟨t, ht⟩ := hfirst.exists_extends belowLine
    obtain ⟨hline, hapart⟩ := hsame clear_belowLine (ht.isEmpty_eq_false (.inr rfl))
    have hlength := hapart.two_le_length_known
    rw [hline.known] at hlength
    exact absurd hlength (by decide)
  have hopen {d : Draft} (hd : d.Clear) : (first d).isEmpty = false := by
    obtain ⟨t, ht⟩ := hfirst.exists_extends d
    obtain ⟨-, hle, -⟩ := hfirst.quiet hd apart_belowGap ht hs hlines
    refine ht.isEmpty_eq_false (.inl ?_)
    rintro rfl
    exact hne (List.eq_nil_of_length_eq_zero (Nat.le_zero.mp hle))
  refine ⟨s, fun d hd => (hsame hd (hopen hd)).1, hne, ?_⟩
  -- at the start of everything, neither would a single newline
  rintro rfl
  obtain ⟨hline, hapart⟩ := hsame clear_empty (hopen clear_empty)
  have hlength := hapart.two_le_length_known
  rw [hline.known] at hlength
  exact absurd hlength (by decide)

theorem grounded_of_shown (hfirst : Uniform first) (hnext : Uniform next)
    (hsteady : SteadyToEnd fun d => next (first d).blankLine) {s : List Char}
    (hs : Extends s belowGap (first belowGap)) (hshown : ¬ Newlines s) : Grounded first := by
  refine ⟨s, fun d hd => ?_, ?_, ?_⟩
  · obtain ⟨t, ht⟩ := hfirst.exists_extends d
    obtain ⟨hsame, halike⟩ := hfirst.shown hd apart_belowGap ht hs hshown
    obtain ⟨r, hr, hr', -⟩ := (uniform_blankLine.andThen hnext).agree _ _ halike
    have htrim := hsteady d belowGap hd apart_belowGap.clear _ _ (ht.trans hr) (hs.trans hr')
    have heq : t = s :=
      List.append_cancel_right ((hsame.append r).eq_of_trimNewlines htrim)
    exact heq ▸ ht
  · rintro rfl
    exact hshown newlines_nil
  · rintro rfl
    exact hshown (by simp [Newlines])

/-- A grounded child leaves alike drafts behind. -/
theorem Grounded.alike (hfirst : Uniform first) {s : List Char}
    (hs : ∀ d : Draft, d.Clear → Extends s d (first d)) (hne : s ≠ []) (hline : s ≠ ['\n'])
    (hd : d.Clear) (he : e.Clear) : Alike (first d) (first e) := by
  have hgap := hs belowGap apart_belowGap.clear
  by_cases hlines : Newlines s
  · have hlength : 2 ≤ s.length := by
      rcases s with _ | ⟨a, _ | ⟨b, s⟩⟩
      · exact absurd rfl hne
      · rw [hlines a List.mem_cons_self] at hline
        exact absurd rfl hline
      · simp
    have hapart {d : Draft} (hd : d.Clear) : (first d).Apart := by
      obtain ⟨-, -, hclear, -⟩ := hfirst.quiet hd apart_belowGap (hs d hd) hgap hlines
      exact hd.apart_of_newlines hlines (hs d hd) hclear.lineStart (.inl hlength)
    exact (hapart hd).alike (hapart he)
  · obtain ⟨-, hleft⟩ := hfirst.shown hd apart_belowGap (hs d hd) hgap hlines
    obtain ⟨-, hright⟩ := hfirst.shown he apart_belowGap (hs e he) hgap hlines
    exact hleft.trans hright.symm

/-- Of a body that shows something only a first child that is grounded keeps the rest the same. -/
theorem steadyToEnd_iff_grounded (hfirst : Uniform first) (hnext : Uniform next)
    (hshown : ∀ s, Extends s belowGap (next (first belowGap).blankLine) → ¬ Newlines s) :
    SteadyToEnd (fun d => next (first d).blankLine) ↔ Grounded first := by
  constructor
  · intro hsteady
    obtain ⟨s, hs⟩ := hfirst.exists_extends belowGap
    by_cases hlines : Newlines s
    · obtain ⟨-, -, -, hapart⟩ := hfirst.quiet apart_belowGap.clear apart_belowGap hs hs hlines
      obtain ⟨r, hr⟩ := hnext.exists_extends (first belowGap)
      refine grounded_of_newlines hfirst hnext hsteady hs hlines hr fun hrest => ?_
      have hwritten := hs.trans hr
      rw [← hapart.blankLine] at hwritten
      exact hshown _ hwritten (newlines_append.mpr ⟨hlines, hrest⟩)
    · exact grounded_of_shown hfirst hnext hsteady hs hlines
  · rintro ⟨s, hs, hne, hline⟩ d e hd he t t' ht ht'
    have halike := Grounded.alike hfirst hs hne hline hd he
    obtain ⟨r, hr, hr', -⟩ := (uniform_blankLine.andThen hnext).agree _ _ halike
    rw [ht.eq ((hs d hd).trans hr), ht'.eq ((hs e he).trans hr')]

end

/-! Quotes. -/

section
variable {write write' : Draft → Draft} {cs : List Node}

theorem SteadyToEnd.congr (h : Uniform write)
    (hmore : ∀ d, ∃ n, Newlines n ∧ Extends n (write d) (write' d)) :
    SteadyToEnd write ↔ SteadyToEnd write' := by
  refine forall₄_congr fun d e hd he => ?_
  obtain ⟨s, hs⟩ := h.exists_extends d
  obtain ⟨s', hs'⟩ := h.exists_extends e
  obtain ⟨n, hn, hmored⟩ := hmore d
  obtain ⟨n', hn', hmoree⟩ := hmore e
  have hend := trimNewlines_append hn s
  have hend' := trimNewlines_append hn' s'
  constructor
  · intro heq t t' ht ht'
    rw [ht.eq (hs.trans hmored), ht'.eq (hs'.trans hmoree), hend, hend']
    exact heq s s' hs hs'
  · intro heq t t' ht ht'
    rw [ht.eq hs, ht'.eq hs', ← hend, ← hend']
    exact heq _ _ (hs.trans hmored) (hs'.trans hmoree)

/-- The text of a quote is that of its body in the same place. -/
theorem extends_blockquote (cs : List Node) {d : Draft} {s : List Char} (hd : d.Clear)
    (hs : Extends s d (writeBlocks nowhere false cs d)) :
    Extends (quoteText s) d (writeNode (.parent .blockquote cs) d) := by
  have hcapture := ((listUniform cs).blocks nowhere false).capture_eq hd hs
  have hquote : writeNode (.parent .blockquote cs) d =
      ((d.capture (writeBlocks nowhere false cs)).2.push
        (quoteText (d.capture (writeBlocks nowhere false cs)).1)).atLineStart := by
    simp only [writeNode, hd.newline]
  rw [hquote, hcapture]
  exact ⟨rfl, rfl⟩

theorem steady_blockquote_iff_body (cs : List Node) :
    Steady (writeNode (.parent .blockquote cs)) ↔ SteadyToEnd (writeBlocks nowhere false cs) := by
  constructor
  · intro hsteady d e hd he s s' hs hs'
    obtain ⟨q, hq, hq'⟩ := hsteady d e hd he
    have hleft := hq.eq (extends_blockquote cs hd hs)
    have hright := hq'.eq (extends_blockquote cs he hs')
    exact quoteText_inj.mp (hleft.symm.trans hright)
  · intro hsteady d e hd he
    have hbody := (listUniform cs).blocks nowhere false
    obtain ⟨s, hs⟩ := hbody.exists_extends d
    obtain ⟨s', hs'⟩ := hbody.exists_extends e
    have hsame := quoteText_inj.mpr (hsteady d e hd he s s' hs hs')
    exact ⟨quoteText s, extends_blockquote cs hd hs, hsame ▸ extends_blockquote cs he hs'⟩

theorem exists_extends_blankLine (d : Draft) : ∃ n, Newlines n ∧ Extends n d d.blankLine := by
  have hone : Newlines ['\n'] := by simp [Newlines]
  have hnewline : ∃ n, Newlines n ∧ Extends n d d.newline := by
    unfold newline
    split
    · exact ⟨['\n'], hone, ⟨rfl, rfl⟩⟩
    · exact ⟨[], newlines_nil, .refl d⟩
  have hskip : ∃ n, Newlines n ∧ Extends n d.newline d.blankLine := by
    simp only [blankLine]
    split
    · exact ⟨['\n'], hone, extends_push d.newline _⟩
    · exact ⟨[], newlines_nil, .refl d.newline⟩
  obtain ⟨n, hn, hline⟩ := hnewline
  obtain ⟨m, hm, hgap⟩ := hskip
  exact ⟨n ++ m, newlines_append.mpr ⟨hn, hm⟩, hline.trans hgap⟩

/-- What follows the first block starts with a gap; behind the last there might as well be one. -/
theorem exists_next (cs : List Node) : ∃ next, Uniform next ∧ ∀ d : Draft,
    ∃ n, Newlines n ∧ Extends n (writeBlocks nowhere true cs d) (next d.blankLine) := by
  cases cs with
  | nil => exact ⟨fun d => d, uniform_id, exists_extends_blankLine⟩
  | cons c cs =>
    have hnext :=
      (uniform_asBlock c (uniform_node c).1).andThen ((listUniform cs).blocks nowhere true)
    exact ⟨_, hnext, fun d => ⟨[], newlines_nil, .refl _⟩⟩

theorem newlines_page_iff {s : List Char} {d : Draft} (h : Extends s {} d) :
    Newlines d.page ↔ Newlines s := by
  rw [h.page]
  simp [Newlines]

/-- The texts of a body are all the same at their ends exactly if they show nothing, or if the first
block is grounded. -/
theorem steadyToEnd_blocks_iff (cs : List Node) :
    SteadyToEnd (writeBlocks nowhere false cs) ↔
      Newlines (writeBlocks nowhere false cs {}).page ∨
        ∃ c ∈ cs.head?, Grounded (·.asBlock c (writeNode c)) := by
  have hbody := (listUniform cs).blocks nowhere false
  obtain ⟨s, hs⟩ := hbody.exists_extends {}
  obtain ⟨r, hr⟩ := hbody.exists_extends belowGap
  have hnewlines : Newlines (writeBlocks nowhere false cs {}).page ↔ Newlines r :=
    (newlines_page_iff hs).trans (hbody.newlines_iff clear_empty apart_belowGap hs hr)
  by_cases hquiet : Newlines r
  · refine iff_of_true (fun d e hd he t t' ht ht' => ?_) (.inl (hnewlines.mpr hquiet))
    have hleft := (hbody.newlines_iff hd apart_belowGap ht hr).mpr hquiet
    have hright := (hbody.newlines_iff he apart_belowGap ht' hr).mpr hquiet
    rw [hleft.trimNewlines_eq_nil, hright.trimNewlines_eq_nil]
  · rw [or_iff_right (fun h => hquiet (hnewlines.mp h))]
    cases cs with
    | nil =>
      have hnil : r = [] := hr.eq (.refl belowGap)
      rw [hnil] at hquiet
      exact absurd newlines_nil hquiet
    | cons c cs =>
      have hfirst : Uniform (·.asBlock c (writeNode c)) := uniform_asBlock c (uniform_node c).1
      obtain ⟨next, hnext, hmore⟩ := exists_next cs
      have hcongr := SteadyToEnd.congr hbody fun d => hmore (d.asBlock c (writeNode c))
      rw [hcongr, steadyToEnd_iff_grounded hfirst hnext]
      · simp
      · intro t ht hlines
        obtain ⟨n, -, hn⟩ := hmore (belowGap.asBlock c (writeNode c))
        have heq : t = r ++ n := ht.eq (hr.trans hn)
        rw [heq] at hlines
        exact hquiet (newlines_append.mp hlines).1

/-- Two drafts where a line starts get the same quote if both or none of them are empty and both or
none have an empty line there. In all drafts where a line starts a quote is the same exactly if it
shows nothing, or if its first child adds the same text to all of them and that is neither empty nor
a single newline. -/
theorem steady_blockquote_iff (cs : List Node) :
    (∀ d d' : Draft, d.Clear → d'.Clear → d.isEmpty = d'.isEmpty →
      d.endsWithBlankLine = d'.endsWithBlankLine →
      ∃ s, Extends s d (writeNode (.parent .blockquote cs) d) ∧
        Extends s d' (writeNode (.parent .blockquote cs) d')) ∧
    (Steady (writeNode (.parent .blockquote cs)) ↔
      Newlines (writeBlocks nowhere false cs {}).page ∨
        ∃ c ∈ cs.head?, Grounded (·.asBlock c (writeNode c))) := by
  constructor
  · intro d d' hd hd' hempty hblank
    obtain ⟨s, hs, hs', -⟩ :=
      (uniform_node (.parent .blockquote cs)).1.agree d d' (hd.alike hd' hempty hblank)
    exact ⟨s, hs, hs'⟩
  · rw [steady_blockquote_iff_body]
    exact steadyToEnd_blocks_iff cs

/-- The text of a paragraph stands on lines of its own, wherever a line starts. -/
theorem grounded_paragraph {ns : List Node} (hns : ∀ n ∈ ns, n.Everywhere (isInline · = true))
    (hne : phrasingTextAll false ns ≠ []) :
    Grounded (·.asBlock (.paragraph ns) (writeNode (.paragraph ns))) := by
  refine ⟨phrasingTextAll false ns ++ ['\n'], fun d hd => ?_, by simp, ?_⟩
  · have hadds := adds_writeInlines ns hns d
    rw [hd.not_endsWith (by decide)] at hadds
    have hinlines : Extends (phrasingTextAll false ns) d (writeInlines ns d) :=
      ⟨hadds.before, hadds.page⟩
    show Extends _ d (d.asBlock (.paragraph ns) (writeNode (.paragraph ns)))
    rw [asBlock_of_not_isInline rfl, Node.paragraph, writeNode, hd.newline]
    exact hinlines.trans ⟨rfl, rfl⟩
  · intro heq
    exact hne (List.append_left_eq_self.mp heq)

/-- A quote that starts with the text of a paragraph is the same everywhere, whatever follows. -/
theorem steady_blockquote_paragraph {ns : List Node}
    (hns : ∀ n ∈ ns, n.Everywhere (isInline · = true)) (hne : phrasingTextAll false ns ≠ [])
    (cs : List Node) : Steady (writeNode (.parent .blockquote (.paragraph ns :: cs))) := by
  rw [steady_blockquote_iff_body, steadyToEnd_blocks_iff]
  exact .inr ⟨.paragraph ns, rfl, grounded_paragraph hns hne⟩

end

/-- Below a line of text and below a line that is not known; and a quote of one paragraph. -/
theorem steady_blockquote_belowText :
    let text : Draft := ({} : Draft).push "x\n".toList
    let cs : List Node := [.text "", .paragraph [.text "Y"]]
    (text.Clear ∧ belowLine.Clear ∧ text.isEmpty = belowLine.isEmpty ∧
      text.endsWithBlankLine = belowLine.endsWithBlankLine) ∧
    (∃ s, Extends s text (writeNode (.parent .blockquote cs) text) ∧
      Extends s belowLine (writeNode (.parent .blockquote cs) belowLine)) ∧
    Steady (writeNode (.parent .blockquote [.paragraph [.text "Y"]])) := by
  intro text cs
  have htext : text.Clear := ⟨rfl, .inr rfl⟩
  refine ⟨⟨htext, clear_belowLine, rfl, rfl⟩,
    (steady_blockquote_iff cs).1 text belowLine htext clear_belowLine rfl rfl, ?_⟩
  refine (steady_blockquote_iff [.paragraph [.text "Y"]]).2.mpr (.inr ⟨_, rfl, ?_⟩)
  exact grounded_paragraph (by simp [Node.text, isInline]) (by decide)

/-- An empty text in front of a paragraph: at the start of a document there is no gap between them,
and inside a directive there is one. -/
theorem blockquote_emptyText :
    let quote : Node := .parent .blockquote [.text "", .paragraph [.text "Y"]]
    write true [quote] = "> Y\n" ∧
      write true [.parent (.admonition (some "note") none) [quote]] =
        ":::\x7bnote\x7d\n>\n> Y\n:::\n" ∧
      ({} : Draft).Clear ∧ belowLine.Clear ∧
      (writeNode quote {}).page.reverse = "> Y\n".toList ∧
      (writeNode quote belowLine).page.reverse = ">\n> Y\n".toList ∧
      ¬ Steady (writeNode quote) := by
  intro quote
  have hempty : (writeNode quote {}).page.reverse = "> Y\n".toList := by decide
  have hline : (writeNode quote belowLine).page.reverse = ">\n> Y\n".toList := by decide
  refine ⟨by decide, by decide, clear_empty, clear_belowLine, hempty, hline, fun hsteady => ?_⟩
  obtain ⟨s, hs, hs'⟩ := hsteady {} belowLine clear_empty clear_belowLine
  have hsame : (writeNode quote {}).page = (writeNode quote belowLine).page := by
    rw [hs.page, hs'.page]
    rfl
  rw [hsame, hline] at hempty
  exact absurd hempty (by decide)

end MystNotebook.Markdown
