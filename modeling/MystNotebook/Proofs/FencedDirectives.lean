import MystNotebook.Proofs.FencedCode

/-! Fenced blocks with options, read back. Nothing stands between the option lines and the content,
so what reads like an option at the start of the content is one. The lines behind it are content up
to the fence, as in a block without options. -/
namespace MystNotebook.Markdown
open Text

def isKeyChar (c : Char) : Bool := c != ':' && !isBlank c

/-- What stands behind the key: a colon, and perhaps a value behind a space. -/
def readValue? : List Char → Option (List Char)
  | [':'] => some []
  | ':' :: ' ' :: value => some value
  | _ => none

def readOption? : List Char → Option (String × String)
  | ':' :: s =>
    let key := s.takeWhile isKeyChar
    if key.isEmpty then none
    else (readValue? (s.dropWhile isKeyChar)).map fun value =>
      (String.ofList key, String.ofList value)
  | _ => none

/-- The options that the leading lines hold, and the lines behind them. -/
def readOptions : List (List Char) → List (String × String) × List (List Char)
  | [] => ([], [])
  | line :: lines =>
    match readOption? (trimNewlines line) with
    | some option => (option :: (readOptions lines).1, (readOptions lines).2)
    | none => ([], line :: lines)

/-- A block between backtick fences whose leading lines are options. -/
structure FencedDirective extends FencedCode where
  options : List (String × String)

/-- The directive that a text starts with, up to the first line that closes it. -/
def readFencedDirective (s : List Char) : Option FencedDirective :=
  match fullLines s with
  | [] => none
  | first :: lines =>
    let ticks := (first.takeWhile (· == '`')).length
    let info := trimNewlines (first.dropWhile (· == '`'))
    let (options, body) := readOptions lines
    match body.dropWhile (staysOpen ticks) with
    | [] => none
    | _ :: rest =>
      if 3 ≤ ticks then
        some ⟨⟨ticks, info, (body.takeWhile (staysOpen ticks)).flatten, rest⟩, options⟩
      else none

def firstLine (s : List Char) : List Char := s.takeWhile (· != '\n')

/-! Option lines. -/

/-- An option that can be told from the lines around it. -/
structure IsOption (o : String × String) : Prop where
  key_ne : o.1.toList ≠ []
  key : o.1.toList.all isKeyChar = true
  value : '\n' ∉ o.2.toList

/-- An option line without its newline. -/
def optionHead (key value : String) : List Char :=
  ':' :: (key.toList ++ ':' :: (if value.isEmpty then [] else ' ' :: value.toList))

theorem optionLine_eq (key value : String) :
    optionLine key value = optionHead key value ++ ['\n'] := by
  simp [optionLine, optionHead]

theorem newline_not_mem_optionHead {o : String × String} (h : IsOption o) :
    '\n' ∉ optionHead o.1 o.2 := by
  have hkey : '\n' ∉ o.1.toList := fun hmem =>
    absurd (List.all_eq_true.mp h.key '\n' hmem) (by decide)
  have hvalue : '\n' ∉ (if o.2.isEmpty then [] else ' ' :: o.2.toList) := by
    split
    · exact List.not_mem_nil
    · rw [List.mem_cons, not_or]
      exact ⟨by decide, h.value⟩
  simp only [optionHead, List.mem_cons, List.mem_append, not_or]
  exact ⟨by decide, hkey, by decide, hvalue⟩

theorem readValue?_optionValue (value : String) :
    readValue? (':' :: (if value.isEmpty then [] else ' ' :: value.toList)) =
      some value.toList := by
  split
  next h =>
    rw [String.isEmpty_iff.mp h]
    rfl
  next => rfl

theorem readOption?_optionHead {o : String × String} (h : IsOption o) :
    readOption? (optionHead o.1 o.2) = some o := by
  have hcolon : ¬ isKeyChar ':' = true := by decide
  have hkey : ∀ c ∈ o.1.toList, isKeyChar c = true := List.all_eq_true.mp h.key
  have htake (t : List Char) : (o.1.toList ++ ':' :: t).takeWhile isKeyChar = o.1.toList := by
    rw [List.takeWhile_append_of_pos hkey, List.takeWhile_cons_of_neg hcolon, List.append_nil]
  have hdrop (t : List Char) : (o.1.toList ++ ':' :: t).dropWhile isKeyChar = ':' :: t := by
    rw [List.dropWhile_append_of_pos hkey, List.dropWhile_cons_of_neg hcolon]
  have hne : ¬ o.1.toList.isEmpty = true := by
    rw [List.isEmpty_iff]
    exact h.key_ne
  rw [optionHead, readOption?]
  simp only [htake, hdrop, if_neg hne, readValue?_optionValue, Option.map_some,
    String.ofList_toList]

/-- Options are read back, and the reading goes on with the lines behind them. -/
theorem readOptions_optionLines {options : List (String × String)}
    (h : ∀ o ∈ options, IsOption o) (t : List Char) :
    readOptions (fullLines (optionLines options ++ t)) =
      (options ++ (readOptions (fullLines t)).1, (readOptions (fullLines t)).2) := by
  induction options with
  | nil => rfl
  | cons o options ih =>
    obtain ⟨ho, hoptions⟩ := List.forall_mem_cons.mp h
    have hline := newline_not_mem_optionHead ho
    have htext : optionLines (o :: options) ++ t =
        optionHead o.1 o.2 ++ '\n' :: (optionLines options ++ t) := by
      simp [optionLines, optionLine_eq]
    rw [htext, fullLines_append_newline, fullLines_line hline, List.singleton_append, readOptions,
      trimNewlines_line hline, readOption?_optionHead ho]
    simp only [ih hoptions, List.cons_append]

theorem readOptions_suffix (lines : List (List Char)) : (readOptions lines).2 <:+ lines := by
  induction lines with
  | nil => exact List.suffix_refl []
  | cons line lines ih =>
    rw [readOptions]
    split
    · exact ih.trans (List.suffix_cons line lines)
    · exact List.suffix_refl _

/-- A line that is no option is none behind other lines either. -/
theorem readOptions_append {line : List Char} (h : readOption? (trimNewlines line) = none)
    (lines rest : List (List Char)) :
    readOptions (lines ++ line :: rest) =
      ((readOptions lines).1, (readOptions lines).2 ++ line :: rest) := by
  induction lines with
  | nil =>
    rw [List.nil_append, readOptions.eq_def]
    simp only [h, readOptions, List.nil_append]
  | cons first lines ih =>
    rw [List.cons_append, readOptions, readOptions]
    split
    · rw [ih]
    · rfl

/-! A whole block. -/

theorem readOption?_backtickFence (value : List Char) :
    readOption? (trimNewlines (backtickFence value ++ ['\n'])) = none := by
  rw [trimNewlines_line (newline_not_mem_backtickFence value)]
  obtain ⟨n, hn⟩ := Nat.exists_eq_add_of_le' (three_le_backtickCount value)
  rw [backtickFence, hn]
  rfl

theorem fullLines_fencedText {info : List Char} (hinfo : '\n' ∉ info)
    (options : List (String × String)) (value : List Char) :
    fullLines (fencedText info options value) =
      (backtickFence value ++ info ++ ['\n']) ::
        fullLines (optionLines options ++
          (closedLine value ++ (backtickFence value ++ ['\n']))) := by
  have hopening : '\n' ∉ backtickFence value ++ info := by
    rw [List.mem_append, not_or]
    exact ⟨newline_not_mem_backtickFence value, hinfo⟩
  have htext : fencedText info options value = (backtickFence value ++ info) ++ '\n' ::
      (optionLines options ++ (closedLine value ++ (backtickFence value ++ ['\n']))) := by
    simp [fencedText]
  rw [htext, fullLines_append_newline, fullLines_line hopening]
  rfl

theorem fullLines_content (value : List Char) :
    fullLines (closedLine value ++ (backtickFence value ++ ['\n'])) =
      fullLines (closedLine value) ++ [backtickFence value ++ ['\n']] := by
  rw [fullLines_append_of_wholeLines (wholeLines_closedLine value),
    fullLines_line (newline_not_mem_backtickFence value)]

/-- What is read back from a block whose info string starts with a brace: its options and those
that its content starts with, and the rest of the content. -/
theorem readFencedDirective_fencedText {name : List Char} (hname : '\n' ∉ name)
    {options : List (String × String)} (hoptions : ∀ o ∈ options, IsOption o)
    (value : List Char) :
    readFencedDirective (fencedText ('\x7b' :: name) options value) =
      some ⟨⟨backtickCount value, '\x7b' :: name,
          (readOptions (fullLines (closedLine value))).2.flatten, []⟩,
        options ++ (readOptions (fullLines (closedLine value))).1⟩ := by
  have hinfo : '\n' ∉ '\x7b' :: name := by
    rw [List.mem_cons, not_or]
    exact ⟨by decide, hname⟩
  have hticks : ((backtickFence value ++ '\x7b' :: (name ++ ['\n'])).takeWhile (· == '`')).length =
      backtickCount value := by
    rw [takeWhile_backtickFence (by decide), backtickFence, List.length_replicate]
  have hshown : trimNewlines ((backtickFence value ++ '\x7b' :: (name ++ ['\n'])).dropWhile
      (· == '`')) = '\x7b' :: name := by
    rw [dropWhile_backtickFence (by decide), ← List.cons_append, trimNewlines_line hinfo]
  have hopen : ∀ line ∈ (readOptions (fullLines (closedLine value))).2,
      staysOpen (backtickCount value) line = true :=
    fun line hline => staysOpen_of_mem ((readOptions_suffix _).subset hline)
  have hclose : ¬ staysOpen (backtickCount value) (backtickFence value ++ ['\n']) = true :=
    Bool.not_eq_true _ ▸ staysOpen_backtickFence _
  rw [readFencedDirective, fullLines_fencedText hinfo]
  simp only [List.append_assoc, List.cons_append, readOptions_optionLines hoptions,
    fullLines_content, readOptions_append (readOption?_backtickFence value), hticks, hshown]
  rw [List.dropWhile_append_of_pos hopen, List.dropWhile_cons_of_neg hclose,
    List.takeWhile_append_of_pos hopen, List.takeWhile_cons_of_neg hclose, List.append_nil]
  exact if_pos (three_le_backtickCount value)

/-! Content that starts with no option. -/

theorem firstLine_append_cons {s : List Char} (h : '\n' ∉ s) (t : List Char) :
    firstLine (s ++ '\n' :: t) = s := by
  have hs : ∀ c ∈ s, (c != '\n') = true := fun c hc => by
    rw [bne_iff_ne]
    exact fun heq => h (heq ▸ hc)
  rw [firstLine, List.takeWhile_append_of_pos hs, List.takeWhile_cons_of_neg (by decide),
    List.append_nil]

theorem firstLine_closedLine (value : List Char) :
    firstLine (closedLine value) = firstLine value := by
  unfold closedLine
  split
  · rfl
  · by_cases hmem : '\n' ∈ value
    · obtain ⟨line, rest, hline, rfl⟩ := exists_firstLine hmem
      rw [List.append_assoc, List.cons_append, firstLine_append_cons hline,
        firstLine_append_cons hline]
    · rw [firstLine_append_cons hmem, firstLine, eq_comm, List.takeWhile_eq_self_iff]
      intro c hc
      rw [bne_iff_ne]
      exact fun heq => hmem (heq ▸ hc)

theorem readOptions_closedLine {value : List Char} (h : readOption? (firstLine value) = none) :
    readOptions (fullLines (closedLine value)) = ([], fullLines (closedLine value)) := by
  rw [← firstLine_closedLine] at h
  by_cases hempty : closedLine value = []
  · rw [hempty]
    rfl
  · obtain ⟨line, rest, hline, htext⟩ :=
      exists_firstLine ((wholeLines_closedLine value).newline_mem hempty)
    rw [htext, firstLine_append_cons hline] at h
    rw [htext, fullLines_append_newline, fullLines_line hline, List.singleton_append,
      readOptions.eq_def]
    simp only [trimNewlines_line hline, h]

/-- A block whose content starts with no option reads back as it was, up to a newline at its end,
and nothing is left behind its fence. -/
theorem readFencedDirective_of_firstLine {name : List Char} (hname : '\n' ∉ name)
    {options : List (String × String)} (hoptions : ∀ o ∈ options, IsOption o)
    {value : List Char} (hvalue : readOption? (firstLine value) = none) :
    ∃ block, readFencedDirective (fencedText ('\x7b' :: name) options value) = some block ∧
      block.info = '\x7b' :: name ∧ block.options = options ∧ block.rest = [] ∧
      (block.value = value ∨ ¬ WholeLines value ∧ block.value = value ++ ['\n']) := by
  refine ⟨_, readFencedDirective_fencedText hname hoptions value, rfl, ?_, rfl, ?_⟩
  · rw [readOptions_closedLine hvalue, List.append_nil]
  · rw [readOptions_closedLine hvalue, flatten_fullLines]
    by_cases hwhole : WholeLines value
    · exact .inl (closedLine_of_wholeLines hwhole)
    · exact .inr ⟨hwhole, closedLine_of_not_wholeLines hwhole⟩

/-! The options of code and of formulas. -/

theorem isOption_some? {key : String} (hne : key.toList ≠ [])
    (hkey : key.toList.all isKeyChar = true) {value : Option String}
    (hvalue : ∀ text, value = some text → '\n' ∉ text.toList) :
    ∀ o ∈ some? key value, IsOption o := by
  intro o ho
  cases value with
  | none => cases ho
  | some text =>
    rw [some?, Option.map_some, Option.toList_some, List.mem_singleton] at ho
    rw [ho]
    exact ⟨hne, hkey, hvalue text rfl⟩

theorem isOption_codeOptions {c : Code}
    (h : ∀ text, c.target.label = some text ∨ c.filename = some text ∨ c.cssClass = some text →
      '\n' ∉ text.toList) :
    ∀ o ∈ codeOptions c, IsOption o := by
  have hnumbers : ∀ o ∈ if c.showLineNumbers == some true then [("linenos", "")] else [],
      IsOption o := by
    intro o ho
    split at ho
    · rw [List.mem_singleton.mp ho]
      exact ⟨by decide, by decide, by decide⟩
    · cases ho
  have hstart : ∀ text, c.startingLineNumber.map (fun n => toString n.toNat) = some text →
      '\n' ∉ text.toList := by
    intro text htext
    obtain ⟨n, -, rfl⟩ := Option.map_eq_some_iff.mp htext
    exact not_mem_digits (by decide) _
  have hlines : ∀ text, c.emphasizeLines.map (numberList ",") = some text →
      '\n' ∉ text.toList := by
    intro text htext
    obtain ⟨ns, -, rfl⟩ := Option.map_eq_some_iff.mp htext
    exact not_mem_numberList (by decide) (by decide) ns
  simp only [codeOptions, List.forall_mem_append]
  refine ⟨⟨⟨⟨⟨?_, ?_⟩, hnumbers⟩, ?_⟩, ?_⟩, ?_⟩
  · exact isOption_some? (by decide) (by decide) fun text htext => h text (.inl htext)
  · exact isOption_some? (by decide) (by decide) fun text htext => h text (.inr (.inl htext))
  · exact isOption_some? (by decide) (by decide) hstart
  · exact isOption_some? (by decide) (by decide) hlines
  · exact isOption_some? (by decide) (by decide) fun text htext => h text (.inr (.inr htext))

theorem write_math (separators : Bool) (m : Math) :
    write separators [.leaf (.math m)] = String.ofList (mathText m) := by
  rw [write, draftOf_singleton rfl rfl]
  simp [writeNode, Draft.leaf, Draft.block, Draft.push, Draft.newline, Draft.atLineStart]

/-- Code with options and formulas with a label, whose content starts with no option, read back with
exactly their options and with their content, up to a newline at its end. -/
theorem readFencedDirective_write (separators : Bool) :
    (∀ c : Code, codeOptions c ≠ [] →
      (∀ text, c.lang = some text ∨ c.target.label = some text ∨ c.filename = some text ∨
        c.cssClass = some text → '\n' ∉ text.toList) →
      readOption? (firstLine c.value.toList) = none →
      ∃ block, readFencedDirective (write separators [.leaf (.code c)]).toList = some block ∧
        block.info = codeBlockInfo c.lang ∧ block.options = codeOptions c ∧ block.rest = [] ∧
        (block.value = c.value.toList ∨
          ¬ WholeLines c.value.toList ∧ block.value = c.value.toList ++ ['\n'])) ∧
    ∀ (m : Math) (label : String), m.target.label = some label → '\n' ∉ label.toList →
      readOption? (firstLine m.value.toList) = none →
      ∃ block, readFencedDirective (write separators [.leaf (.math m)]).toList = some block ∧
        block.info = "\x7bmath\x7d".toList ∧ block.options = [("label", label)] ∧
        block.rest = [] ∧
        (block.value = m.value.toList ∨
          ¬ WholeLines m.value.toList ∧ block.value = m.value.toList ++ ['\n']) := by
  constructor
  · intro c hne htexts hvalue
    have hoptions := isOption_codeOptions fun text htext => htexts text (.inr htext)
    have hname : '\n' ∉
        "code-block\x7d".toList ++ (c.lang.elim [] fun lang => ' ' :: lang.toList) := by
      rw [List.mem_append, not_or]
      refine ⟨by decide, ?_⟩
      cases hlang : c.lang with
      | none => exact List.not_mem_nil
      | some lang =>
        rw [Option.elim_some, List.mem_cons, not_or]
        exact ⟨by decide, htexts lang (.inl hlang)⟩
    have hinfo : codeBlockInfo c.lang =
        '\x7b' :: ("code-block\x7d".toList ++ (c.lang.elim [] fun lang => ' ' :: lang.toList)) := by
      cases c.lang <;> rfl
    have htext : codeText c = fencedText (codeBlockInfo c.lang) (codeOptions c) c.value.toList := by
      simp [codeText, hne]
    rw [write_code, String.toList_ofList, htext, hinfo]
    exact readFencedDirective_of_firstLine hname hoptions hvalue
  · intro m label hlabel hline hvalue
    have hoptions : ∀ o ∈ some? "label" (some label), IsOption o :=
      isOption_some? (by decide) (by decide) fun text htext => Option.some.inj htext ▸ hline
    have htext : mathText m =
        fencedText ('\x7b' :: "math\x7d".toList) [("label", label)] m.value.toList := by
      rw [mathText, hlabel]
      rfl
    rw [write_math, String.toList_ofList, htext]
    exact readFencedDirective_of_firstLine (by decide) hoptions hvalue

/-- A sample that shows an option behind its first line, and a formula that starts with a colon. -/
theorem readFencedDirective_write_quotedOption :
    let sample : Code :=
      { lang := some "md", value := "```\x7bnote\x7d\n:class: b\n```", cssClass := some " a"
        emphasizeLines := some [1, 2], target := { label := some "l: m" } }
    let formula : Math := { value := ":a b: c\n", target := { label := some "eq" } }
    (codeOptions sample ≠ [] ∧
      (∀ text, sample.lang = some text ∨ sample.target.label = some text ∨
        sample.filename = some text ∨ sample.cssClass = some text → '\n' ∉ text.toList) ∧
      readOption? (firstLine sample.value.toList) = none) ∧
    (∃ block, readFencedDirective (write true [.leaf (.code sample)]).toList = some block ∧
      block.info = codeBlockInfo sample.lang ∧ block.options = codeOptions sample ∧
      block.rest = [] ∧
      (block.value = sample.value.toList ∨
        ¬ WholeLines sample.value.toList ∧ block.value = sample.value.toList ++ ['\n'])) ∧
    (formula.target.label = some "eq" ∧ '\n' ∉ "eq".toList ∧
      readOption? (firstLine formula.value.toList) = none) ∧
    ∃ block, readFencedDirective (write true [.leaf (.math formula)]).toList = some block ∧
      block.info = "\x7bmath\x7d".toList ∧ block.options = [("label", "eq")] ∧ block.rest = [] ∧
      (block.value = formula.value.toList ∨
        ¬ WholeLines formula.value.toList ∧ block.value = formula.value.toList ++ ['\n']) := by
  intro sample formula
  have hne : codeOptions sample ≠ [] := by decide
  have htexts : ∀ text, sample.lang = some text ∨ sample.target.label = some text ∨
      sample.filename = some text ∨ sample.cssClass = some text → '\n' ∉ text.toList := by
    rintro text (h | h | h | h) <;> cases h <;> decide
  have hsample : readOption? (firstLine sample.value.toList) = none := by decide
  have hformula : readOption? (firstLine formula.value.toList) = none := by decide
  exact ⟨⟨hne, htexts, hsample⟩, (readFencedDirective_write true).1 sample hne htexts hsample,
    ⟨rfl, by decide, hformula⟩,
    (readFencedDirective_write true).2 formula "eq" rfl (by decide) hformula⟩

/-- Code that starts with an option is written like code that has the option, and a newline at the
end of code is not told from one that the fence needs. -/
theorem write_optionInCode :
    let target : Target := { label := some "l" }
    let quoting : Code := { value := ":class: b", target }
    let classed : Code := { value := "", cssClass := some "b", target }
    (write true [.leaf (.code quoting)] = "```\x7bcode-block\x7d\n:label: l\n:class: b\n```\n" ∧
      write true [.leaf (.code classed)] = write true [.leaf (.code quoting)] ∧
      codeOptions quoting = [("label", "l")] ∧
      (readFencedDirective (write true [.leaf (.code quoting)]).toList).map
          (fun block => (block.options, block.value)) =
        some ([("label", "l"), ("class", "b")], [])) ∧
    write true [.leaf (.code { value := "a", target })] =
      write true [.leaf (.code { value := "a\n", target })] := by
  decide

end MystNotebook.Markdown
