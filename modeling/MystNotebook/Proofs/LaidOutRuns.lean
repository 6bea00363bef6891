import MystNotebook.Markdown.Write
import MystNotebook.Proofs.NodeTexts
import MystNotebook.Proofs.NormalForm
import MystNotebook.Proofs.TextParts

/-! Runs of a character in the pieces of Markdown. A text that is set into its surroundings line by
line has no longer runs than before, and every piece ends in another character than the one that is
counted, so that pieces side by side make no longer run either. -/
namespace MystNotebook
open Text

namespace Markdown

theorem not_mem_digits {c : Char} (hc : c.isDigit = false) (n : Nat) : c ∉ (toString n).toList := by
  intro hmem
  rw [Nat.toString_eq_repr, Nat.toList_repr] at hmem
  rw [Nat.isDigit_of_mem_toDigits (by decide) (by decide) hmem] at hc
  cases hc

/-- What is counted: colons side by side, or every plus sign. Apart from fences, option lines, card
margins and breaks, the writer itself sets none of them. -/
def IsMark (c : Char) (k : Nat) : Prop := c = ':' ∧ 2 ≤ k ∨ c = '+' ∧ 0 < k

namespace IsMark
variable {c : Char} {k : Nat}

theorem pos (hm : IsMark c k) : 0 < k := by
  rcases hm with ⟨-, hk⟩ | ⟨-, hk⟩ <;> omega

theorem two_le (hm : IsMark ':' k) : 2 ≤ k :=
  hm.elim And.right fun h => absurd h.1 (by decide)

theorem not_mem (hm : IsMark c k) {s : List Char} (hs : ':' ∉ s ∧ '+' ∉ s) :
    c ∉ s := by
  rcases hm with ⟨rfl, -⟩ | ⟨rfl, -⟩
  · exact hs.1
  · exact hs.2

theorem ne (hm : IsMark c k) {x : Char} (hx : ':' ∉ [x] ∧ '+' ∉ [x]) : x ≠ c :=
  fun he => hm.not_mem hx (he ▸ List.mem_singleton_self x)

/-- A fixed text, which is looked through for both marks. -/
theorem fixed (hm : IsMark c k) (s : List Char)
    (hs : longestRun ':' 0 s < 2 ∧ s.getLast? ≠ some ':' ∧ '+' ∉ s) :
    Sealed c k s := by
  rcases hm with ⟨rfl, hk⟩ | ⟨rfl, hk⟩
  · exact ⟨hs.1.trans_le hk, hs.2.1⟩
  · exact sealed_of_not_mem hk hs.2.2

theorem nil (hm : IsMark c k) : Sealed c k [] := hm.fixed [] (by decide)

theorem newline_ne (hm : IsMark c k) : '\n' ≠ c := hm.ne (by decide)

theorem replicate (hm : IsMark c k) (n : Nat) (x : Char) (hx : ':' ∉ [x] ∧ '+' ∉ [x]) :
    Sealed c k (List.replicate n x) :=
  sealed_of_not_mem hm.pos fun hmem => hm.ne hx (List.eq_of_mem_replicate hmem).symm

theorem not_mem_digits (hm : IsMark c k) (n : Nat) : c ∉ (toString n).toList := by
  refine Markdown.not_mem_digits ?_ n
  rcases hm with ⟨rfl, -⟩ | ⟨rfl, -⟩ <;> decide

theorem digits (hm : IsMark c k) (n : Nat) : Sealed c k (toString n).toList :=
  sealed_of_not_mem hm.pos (hm.not_mem_digits n)

/-- A line may end in the mark, since the newline ends the run. -/
theorem line (hm : IsMark c k) {s : List Char} (hs : RunsBelow c k s) :
    Sealed c k (s ++ ['\n']) :=
  hs.sealed_append_cons hm.newline_ne hm.nil

theorem newline (hm : IsMark c k) : Sealed c k ['\n'] := hm.nil.cons hm.newline_ne

end IsMark

variable {c : Char} {k : Nat}

/-! Texts that were written apart. -/

theorem infix_of_mem_bodyLines {line body : List Char} (h : line ∈ bodyLines body) :
    line <:+: body :=
  (infix_of_mem_pieces h).trans (dropEndWhile_isPrefix _ body).isInfix

theorem sealed_quoteText (hm : IsMark c k) {body : List Char} (hb : RunsBelow c k body) :
    Sealed c k (quoteText body) := by
  refine sealed_flatMap hm.pos fun line hline => ?_
  unfold quoteLine
  split
  · exact hm.fixed ['>', '\n'] (by decide)
  · rw [List.append_assoc]
    have hbody : RunsBelow c k line := hb.of_isInfix (infix_of_mem_bodyLines hline)
    exact (hm.fixed ['>', ' '] (by decide)).append (hm.line hbody)

theorem sealed_indentedLine (hm : IsMark c k) {line : List Char} (hline : RunsBelow c k line)
    (width : Nat) : Sealed c k (indentedLine width line) := by
  unfold indentedLine
  split
  · exact hm.newline
  · rw [List.append_assoc]
    exact (hm.replicate width ' ' (by decide)).append (hm.line hline)

theorem sealed_indentedLines (hm : IsMark c k) {lines : List (List Char)}
    (hlines : ∀ line ∈ lines, RunsBelow c k line) (width : Nat) :
    Sealed c k (lines.flatMap (indentedLine width)) :=
  sealed_flatMap hm.pos fun line hline => sealed_indentedLine hm (hlines line hline) width

theorem sealed_itemText (hm : IsMark c k) {marker body : List Char} (hmarker : RunsBelow c k marker)
    (hb : RunsBelow c k body) : Sealed c k (itemText marker body) := by
  have hlines : ∀ line ∈ bodyLines body, RunsBelow c k line :=
    fun line hline => hb.of_isInfix (infix_of_mem_bodyLines hline)
  have htrimmed : RunsBelow c k (trimEnd marker) :=
    hmarker.of_isInfix (dropEndWhile_isPrefix isBlank marker).isInfix
  unfold itemText
  split
  · exact hm.nil
  · rename_i line rest heq
    rw [heq, List.forall_mem_cons] at hlines
    refine Sealed.append ?_ (sealed_indentedLines hm hlines.2 _)
    split
    · rw [List.append_nil]
      exact hm.line htrimmed
    · rw [List.append_assoc, List.cons_append]
      exact htrimmed.sealed_append_cons (hm.ne (by decide)) (hm.line hlines.1)

theorem sealed_descriptionText (hm : IsMark c k) {body : List Char} (hb : RunsBelow c k body) :
    Sealed c k (descriptionText body) := by
  have hlines : ∀ line ∈ bodyLines body, RunsBelow c k line :=
    fun line hline => hb.of_isInfix (infix_of_mem_bodyLines hline)
  unfold descriptionText
  split
  · exact hm.nil
  · rename_i line rest heq
    rw [heq, List.forall_mem_cons] at hlines
    refine Sealed.append ?_ (sealed_indentedLines hm hlines.2 _)
    rw [List.append_assoc]
    exact (hm.fixed [':', ' '] (by decide)).append (hm.line hlines.1)

theorem runsBelow_replace (hm : IsMark c k) (x : Char) (image : List Char) (hne : image ≠ [])
    (himage : ':' ∉ x :: image ∧ '+' ∉ x :: image) {s : List Char} (hs : RunsBelow c k s) :
    RunsBelow c k (replace x image s) := by
  have hc : c ∉ x :: image := hm.not_mem himage
  rw [List.mem_cons, not_or] at hc
  rw [RunsBelow, longestRun_replace (Ne.symm hc.1) hne hc.2]
  exact hs

theorem sealed_cellText (hm : IsMark c k) {content : List Char} (hb : RunsBelow c k content) :
    Sealed c k (cellText content ++ [' ', '|']) := by
  have hcell : RunsBelow c k (cellText content) := by
    have htrimmed : RunsBelow c k (trimEnd content) :=
      hb.of_isInfix (dropEndWhile_isPrefix isBlank content).isInfix
    exact runsBelow_replace hm '|' ['\\', '|'] (by decide) (by decide)
      (runsBelow_replace hm '\n' [' '] (by decide) (by decide) htrimmed)
  exact hcell.sealed_append_cons (hm.ne (by decide)) (hm.fixed ['|'] (by decide))

theorem sealed_separatorText (hm : IsMark c k) (columns : Nat) (align : List (Option Align)) :
    Sealed c k (separatorText columns align) := by
  have hmark (a : Option Align) : Sealed c k (alignMark a) := by
    cases a with
    | none => exact hm.fixed _ (by decide)
    | some a => cases a <;> exact hm.fixed _ (by decide)
  have hmarks := sealed_flatMap hm.pos (l := List.range columns)
    fun i _ => hmark (align[i]?.getD none)
  exact ((hm.fixed ['|'] (by decide)).append hmarks).append hm.newline

theorem sealed_missingCells (hm : IsMark c k) (count : Nat) : Sealed c k (missingCells count) := by
  refine sealed_of_not_mem hm.pos fun hmem => ?_
  obtain ⟨cell, hcell, hmem⟩ := List.mem_flatten.mp hmem
  rw [List.eq_of_mem_replicate hcell] at hmem
  exact hm.not_mem (s := [' ', '|']) (by decide) hmem

theorem sealed_commentText (hm : IsMark c k) {value : List Char} (hv : RunsBelow c k value) :
    Sealed c k (commentText value) := by
  refine sealed_flatMap hm.pos fun line hline => ?_
  have hvalue : RunsBelow c k line := hv.of_isInfix (infix_of_mem_lines hline)
  rw [List.append_assoc]
  exact (hm.fixed ['%', ' '] (by decide)).append (hm.line hvalue)

theorem sealed_targetText (hm : IsMark c k) {label : String} (hl : Sealed c k label.toList) :
    Sealed c k (targetText label) :=
  ((hm.fixed ['('] (by decide)).append hl).append (hm.fixed [')', '=', '\n'] (by decide))

/-! Links and images. -/

theorem sealed_escape (hm : IsMark c k) (x : Char) (hx : ':' ∉ [x, '\\'] ∧ '+' ∉ [x, '\\'])
    {s : List Char} (hs : Sealed c k s) : Sealed c k (replace x ['\\', x] s) := by
  have hc : c ∉ [x, '\\'] := hm.not_mem hx
  simp only [List.mem_cons, List.not_mem_nil, or_false, not_or] at hc
  exact hs.replace (Ne.symm hc.1) (by simp) (by simp [hc])

theorem sealed_schemedDestination (hm : IsMark c k) {scheme url : List Char}
    (hs : Sealed c k scheme) (hu : Sealed c k url) :
    Sealed c k (schemedDestination scheme url) := by
  unfold schemedDestination
  split
  · have hangles : Sealed c k (escapeAngles url) :=
      sealed_escape hm '>' (by decide) (sealed_escape hm '<' (by decide) hu)
    exact (((hm.fixed ['<'] (by decide)).append hs).append hangles).append
      (hm.fixed ['>'] (by decide))
  · exact hs.append (sealed_escape hm ')' (by decide) (sealed_escape hm '(' (by decide) hu))

theorem sealed_titleText (hm : IsMark c k) {title : Option String}
    (ht : ∀ t ∈ title, Sealed c k t.toList) : Sealed c k (titleText title) := by
  cases title with
  | none => exact hm.nil
  | some t =>
    have htitle : Sealed c k (replace '"' ['\\', '"'] t.toList) :=
      sealed_escape hm '"' (by decide) (ht t rfl)
    exact ((hm.fixed [' ', '"'] (by decide)).append htitle).append (hm.fixed ['"'] (by decide))

theorem sealed_linkEnd (hm : IsMark c k) {url : List Char} {title : Option String}
    (hu : Sealed c k url) (ht : ∀ t ∈ title, Sealed c k t.toList) :
    Sealed c k (linkEnd url title) := by
  have hinside := (sealed_schemedDestination hm hm.nil hu).append (sealed_titleText hm ht)
  rw [linkEnd, List.append_assoc [']', '(']]
  exact ((hm.fixed [']', '('] (by decide)).append hinside).append (hm.fixed [')'] (by decide))

theorem sealed_imageText (hm : IsMark c k) {i : Image} (hu : Sealed c k i.url.toList)
    (ha : ∀ a ∈ i.alt, Sealed c k a.toList) (ht : ∀ t ∈ i.title, Sealed c k t.toList) :
    Sealed c k (imageText i) := by
  have halt : Sealed c k (i.alt.getD "").toList := by
    cases h : i.alt with
    | none => exact hm.fixed _ (by decide)
    | some a => exact ha a h
  have hbrackets : Sealed c k (escapeBrackets (i.alt.getD "").toList) :=
    sealed_escape hm ']' (by decide) (sealed_escape hm '[' (by decide) halt)
  exact ((hm.fixed ['!', '['] (by decide)).append hbrackets).append (sealed_linkEnd hm hu ht)

/-! Fences. -/

theorem sealed_closedLine (hm : IsMark c k) {s : List Char} (hs : Sealed c k s) :
    Sealed c k (closedLine s) := by
  unfold closedLine
  split
  · exact hs
  · exact hs.append hm.newline

theorem sealed_fencedText (hm : IsMark c k) {info value : List Char}
    {options : List (String × String)} (hinfo : Sealed c k info)
    (hoptions : Sealed c k (optionLines options)) (hvalue : Sealed c k value) :
    Sealed c k (fencedText info options value) := by
  have hfence : Sealed c k (backtickFence value) := hm.replicate _ '`' (by decide)
  have hopening := ((hfence.append hinfo).append hm.newline).append hoptions
  exact ((hopening.append (sealed_closedLine hm hvalue)).append hfence).append hm.newline

theorem sealed_plainInfo (hm : IsMark c k) {code : Code}
    (hl : ∀ s ∈ code.lang, Sealed c k s.toList) (hi : ∀ s ∈ code.metadata, Sealed c k s.toList) :
    Sealed c k (plainInfo code) := by
  unfold plainInfo
  refine Sealed.append ?_ ?_
  · cases h : code.lang with
    | none => exact hm.fixed _ (by decide)
    | some lang => exact hl lang h
  · cases h : code.metadata with
    | none => exact hm.nil
    | some info => exact (hm.fixed [' '] (by decide)).append (hi info h)

theorem sealed_codeBlockInfo (hm : IsMark c k) {lang : Option String}
    (hl : ∀ s ∈ lang, Sealed c k s.toList) : Sealed c k (codeBlockInfo lang) := by
  unfold codeBlockInfo
  refine (hm.fixed _ (by decide)).append ?_
  cases lang with
  | none => exact hm.nil
  | some lang => exact (hm.fixed [' '] (by decide)).append (hl lang rfl)

/-- An option whose key has no colon, and whose value has no long run of them. -/
def IsTame (k : Nat) (o : String × String) : Prop :=
  ':' ∉ o.1.toList ∧ RunsBelow ':' k o.2.toList

/-- The two colons around a key stand side by side if the key is empty. -/
theorem sealed_optionLine (hm : IsMark ':' k) (hk : 3 ≤ k) {key value : String}
    (h : IsTame k (key, value)) : Sealed ':' k (optionLine key value) := by
  obtain ⟨hkey, hvalue⟩ := h
  have hhead : RunsBelow ':' k (':' :: (key.toList ++ [':'])) := by
    refine lt_of_le_of_lt ?_ (Nat.lt_of_succ_le hk)
    rw [longestRun_cons_self]
    by_cases hempty : key.toList = []
    · rw [hempty]
      decide
    · rw [longestRun_append_of_not_mem hempty hkey]
      decide
  have hline : optionLine key value = (':' :: (key.toList ++ [':'])) ++
      ((if value.isEmpty then [] else ' ' :: value.toList) ++ ['\n']) := by
    simp [optionLine]
  rw [hline]
  split
  · exact hhead.sealed_append_cons (by decide) (hm.nil)
  · exact hhead.sealed_append_cons (by decide) (hm.line hvalue)

theorem sealed_optionLines (hm : IsMark ':' k) (hk : 3 ≤ k) {options : List (String × String)}
    (h : ∀ o ∈ options, IsTame k o) : Sealed ':' k (optionLines options) :=
  sealed_flatMap hm.pos fun o ho => sealed_optionLine hm hk (h o ho)

theorem isTame_some? {key : String} {value : Option String} (hkey : ':' ∉ key.toList)
    (hvalue : ∀ s ∈ value, RunsBelow ':' k s.toList) : ∀ o ∈ some? key value, IsTame k o := by
  intro o ho
  cases value with
  | none => cases ho
  | some s =>
    rw [some?, Option.map_some, Option.toList_some, List.mem_singleton] at ho
    rw [ho]
    exact ⟨hkey, hvalue s rfl⟩

theorem not_mem_numberList {c : Char} (hc : c.isDigit = false) {separator : String}
    (h : c ∉ separator.toList) (ns : List UInt32) : c ∉ (numberList separator ns).toList := by
  have hdigits (n : UInt32) : c ∉ (toString n.toNat).toList := not_mem_digits hc _
  rw [numberList, String.toList_intercalate, List.map_map]
  induction ns with
  | nil => exact List.not_mem_nil
  | cons n ns ih =>
    cases ns with
    | nil => simpa [List.intercalate] using hdigits n
    | cons m ns =>
      simp only [List.map_cons, List.intercalate, List.intersperse_cons_cons, List.flatten_cons,
        List.mem_append, not_or] at ih ⊢
      exact ⟨hdigits n, h, ih⟩

/-- The options whose values are numbers, or that have none. -/
theorem isTame_numberOptions (hm : IsMark ':' k) (code : Code) :
    (∀ o ∈ if code.showLineNumbers == some true then [("linenos", "")] else [], IsTame k o) ∧
    (∀ o ∈ some? "lineno-start" (code.startingLineNumber.map fun n => toString n.toNat),
      IsTame k o) ∧
    ∀ o ∈ some? "emphasize-lines" (code.emphasizeLines.map (numberList ",")), IsTame k o := by
  refine ⟨fun o ho => ?_, isTame_some? (by decide) fun s hs => ?_,
    isTame_some? (by decide) fun s hs => ?_⟩
  · split at ho
    · rw [List.mem_singleton] at ho
      rw [ho]
      exact ⟨by decide, runsBelow_of_not_mem hm.pos (by decide)⟩
    · cases ho
  · obtain ⟨n, -, rfl⟩ := Option.map_eq_some_iff.mp hs
    exact (hm.digits _).runs
  · obtain ⟨ns, -, rfl⟩ := Option.map_eq_some_iff.mp hs
    exact runsBelow_of_not_mem hm.pos (not_mem_numberList (by decide) (by decide) ns)

theorem isTame_codeOptions (hm : IsMark ':' k) {code : Code}
    (h : ∀ s ∈ (Leaf.code code).texts, RunsBelow ':' k s.toList) :
    ∀ o ∈ codeOptions code, IsTame k o := by
  have htexts (s : String) (hs : some s = code.target.label ∨ some s = code.filename ∨
      some s = code.cssClass) : RunsBelow ':' k s.toList := by
    refine h s ?_
    rcases hs with hs | hs | hs <;> simp [Leaf.texts, Target.texts, ← hs]
  have hlabel : ∀ o ∈ some? "label" code.target.label, IsTame k o :=
    isTame_some? (by decide) fun s hs => htexts s (.inl hs.symm)
  have hfilename : ∀ o ∈ some? "filename" code.filename, IsTame k o :=
    isTame_some? (by decide) fun s hs => htexts s (.inr (.inl hs.symm))
  have hclass : ∀ o ∈ some? "class" code.cssClass, IsTame k o :=
    isTame_some? (by decide) fun s hs => htexts s (.inr (.inr hs.symm))
  obtain ⟨hshown, hstart, hemphasized⟩ := isTame_numberOptions hm code
  intro o ho
  unfold codeOptions at ho
  simp only [List.mem_append] at ho
  rcases ho with ((((ho | ho) | ho) | ho) | ho) | ho
  · exact hlabel o ho
  · exact hfilename o ho
  · exact hshown o ho
  · exact hstart o ho
  · exact hemphasized o ho
  · exact hclass o ho

theorem codeOptions_of_isPlain {code : Code} (h : code.isPlain = true) : codeOptions code = [] := by
  simp only [Code.isPlain, Bool.and_eq_true, Option.isNone_iff_eq_none, beq_iff_eq] at h
  obtain ⟨⟨⟨⟨⟨hclass, hemphasized⟩, hshown⟩, hstart⟩, hfilename⟩, htarget⟩ := h
  simp [codeOptions, some?, hclass, hemphasized, hshown, hstart, hfilename, htarget]

theorem sealed_codeText (hm : IsMark c k) {code : Code}
    (htexts : ∀ s ∈ (Leaf.code code).texts, Sealed c k s.toList)
    (hplain : code.isPlain = true ∨ c = ':' ∧ 3 ≤ k) : Sealed c k (codeText code) := by
  have hlang : ∀ s ∈ code.lang, Sealed c k s.toList := by
    intro s hs
    rw [Option.mem_def] at hs
    exact htexts s (by simp [Leaf.texts, hs])
  have hmetadata : ∀ s ∈ code.metadata, Sealed c k s.toList := by
    intro s hs
    rw [Option.mem_def] at hs
    exact htexts s (by simp [Leaf.texts, hs])
  have hvalue : Sealed c k code.value.toList := htexts code.value (by simp [Leaf.texts])
  have hoptions : Sealed c k (optionLines (codeOptions code)) := by
    rcases hplain with hplain | ⟨rfl, hk⟩
    · rw [codeOptions_of_isPlain hplain]
      exact hm.nil
    · exact sealed_optionLines hm hk (isTame_codeOptions hm fun s hs => (htexts s hs).runs)
  unfold codeText
  refine sealed_fencedText hm ?_ hoptions hvalue
  split
  · exact sealed_plainInfo hm hlang hmetadata
  · exact sealed_codeBlockInfo hm hlang

theorem sealed_mathText (hm : IsMark ':' k) (hk : 3 ≤ k) {m : Math}
    (htexts : ∀ s ∈ (Leaf.math m).texts, Sealed ':' k s.toList) :
    Sealed ':' k (mathText m) := by
  have hvalue : Sealed ':' k m.value.toList := htexts m.value (by simp [Leaf.texts])
  unfold mathText
  split
  next label hlabel =>
    have hrun : RunsBelow ':' k label.toList :=
      (htexts label (by simp [Leaf.texts, Target.texts, hlabel])).runs
    have htame : ∀ o ∈ some? "label" (some label), IsTame k o :=
      isTame_some? (by decide) (by simpa using hrun)
    exact sealed_fencedText hm (hm.fixed _ (by decide)) (sealed_optionLines hm hk htame) hvalue
  next =>
    have hend : Sealed ':' k (if m.value.toList.getLast? == some '\n' then [] else ['\n']) := by
      split
      · exact hm.nil
      · exact hm.newline
    exact (((hm.fixed _ (by decide)).append hvalue).append hend).append (hm.fixed _ (by decide))

theorem isTame_imageOptions {i : Image}
    (h : ∀ s ∈ (Leaf.image i).texts, RunsBelow ':' k s.toList) :
    ∀ o ∈ imageOptions i, IsTame k o := by
  simp only [Leaf.texts, List.forall_mem_append, Option.mem_toList] at h
  obtain ⟨⟨⟨⟨⟨-, halt⟩, hclass⟩, hwidth⟩, hheight⟩, halign⟩ := h
  simp only [imageOptions, List.forall_mem_append]
  refine ⟨⟨⟨⟨?_, ?_⟩, ?_⟩, ?_⟩, ?_⟩
  · exact isTame_some? (by decide) halt
  · exact isTame_some? (by decide) hclass
  · exact isTame_some? (by decide) hwidth
  · exact isTame_some? (by decide) hheight
  · exact isTame_some? (by decide) halign

theorem isTame_rawOptions (hm : IsMark ':' k) {options : Option Json.Fields}
    (h : ∀ s ∈ fieldTexts options, ':' ∉ s.toList) : ∀ o ∈ rawOptions options, IsTame k o := by
  cases options with
  | none => exact fun o ho => absurd ho List.not_mem_nil
  | some f =>
    intro o ho
    obtain ⟨⟨key, value⟩, he, rfl⟩ := List.mem_map.mp ho
    have hkey := h key (Json.Value.mem_textsOfFields he (.inl rfl))
    have hvalue : ∀ s ∈ value.texts, ':' ∉ s.toList :=
      fun s hs => h s (Json.Value.mem_textsOfFields he (.inr hs))
    have hcompact : RunsBelow ':' k value.compact :=
      Json.Value.runsBelow_compact hm.two_le fun s hs => runsBelow_of_not_mem hm.pos (hvalue s hs)
    refine ⟨hkey, ?_⟩
    show RunsBelow ':' k (optionText value).toList
    unfold optionText
    split
    next s => exact runsBelow_of_not_mem hm.pos (hvalue s (by simp [Json.Value.texts]))
    next => exact runsBelow_of_not_mem hm.pos (by decide)
    next => rwa [String.toList_ofList]

theorem runsBelow_colonFence {depth : Nat} (h : 3 + depth < k) :
    RunsBelow ':' k (colonFence depth) := by
  rw [RunsBelow, colonFence, longestRun_replicate, Nat.zero_add]
  exact h

theorem sealed_directiveStart (hm : IsMark ':' k) (hk : 3 ≤ k) {fence : List Char} {name : String}
    {argument : Option String} {options : List (String × String)} (hfence : RunsBelow ':' k fence)
    (hname : RunsBelow ':' k name.toList) (hargument : ∀ a ∈ argument, RunsBelow ':' k a.toList)
    (hoptions : ∀ o ∈ options, IsTame k o) :
    Sealed ':' k (directiveStart fence name argument options) := by
  have hlines : Sealed ':' k ('\n' :: optionLines options) :=
    (sealed_optionLines hm hk hoptions).cons (by decide)
  have hclose (shown : List Char) (hshown : Sealed ':' k (shown ++ '\n' :: optionLines options)) :
      Sealed ':' k (fence ++ '\x7b' :: (name.toList ++ '\x7d' ::
        (shown ++ '\n' :: optionLines options))) :=
    hfence.sealed_append_cons (by decide) (hname.sealed_append_cons (by decide) hshown)
  have hstart (shown : List Char) :
      fence ++ ['\x7b'] ++ name.toList ++ ['\x7d'] ++ shown ++ ['\n'] ++ optionLines options =
        fence ++ '\x7b' :: (name.toList ++ '\x7d' :: (shown ++ '\n' :: optionLines options)) := by
    simp
  unfold directiveStart
  rw [hstart]
  refine hclose _ ?_
  cases argument with
  | none => exact hlines
  | some a =>
    show Sealed ':' k ((if a.isEmpty then [] else ' ' :: a.toList) ++ '\n' :: optionLines options)
    split
    · exact hlines
    · exact Sealed.cons (by decide) ((hargument a rfl).sealed_append_cons (by decide)
        (sealed_optionLines hm hk hoptions))

theorem sealed_imageDirectiveText (hm : IsMark ':' k) (hk : 3 < k) {i : Image}
    (h : ∀ s ∈ (Leaf.image i).texts, RunsBelow ':' k s.toList) :
    Sealed ':' k (imageDirectiveText i) := by
  have hfence : RunsBelow ':' k (colonFence 0) := runsBelow_colonFence hk
  have hurl : ∀ a ∈ some i.url, RunsBelow ':' k a.toList := by
    rintro a ⟨⟩
    exact h i.url (by simp [Leaf.texts])
  rw [imageDirectiveText, List.append_assoc]
  exact (sealed_directiveStart hm hk.le hfence (runsBelow_of_not_mem hm.pos (by decide)) hurl
    (isTame_imageOptions h)).append (hm.line hfence)

end Markdown
end MystNotebook
