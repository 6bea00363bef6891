import MystNotebook.Proofs.QuotedReferences

/-! Fenced code, read back. A line can only close a block if it holds as many backticks in a row as
the fence, and a fence is longer than every run in its code; so whatever the code is, the block
closes at its own last line. -/
namespace MystNotebook.Markdown
open Text

/-- A block of code between backtick fences, as CommonMark reads it. -/
structure FencedCode where
  ticks : Nat
  info : List Char
  /-- The lines between the fences. -/
  value : List Char
  /-- The lines behind the closing one. -/
  rest : List (List Char)

/-- At least three backticks and an info string, which has none. -/
def openingFence? (line : List Char) : Option (Nat × List Char) :=
  let ticks := (line.takeWhile (· == '`')).length
  let info := trimNewlines (line.dropWhile (· == '`'))
  if 3 ≤ ticks ∧ '`' ∉ info then some (ticks, info) else none

/-- Up to three spaces, at least as many backticks as in the opening line, and only spaces up to the
end of the line. -/
def closesFence (ticks : Nat) (line : List Char) : Bool :=
  let marks := line.dropWhile (· == ' ')
  (line.takeWhile (· == ' ')).length ≤ 3 && ticks ≤ (marks.takeWhile (· == '`')).length &&
    (trimNewlines (marks.dropWhile (· == '`'))).all (· == ' ')

def staysOpen (ticks : Nat) (line : List Char) : Bool := !closesFence ticks line

/-- The fenced code that a text starts with, up to the first line that closes it. -/
def readFencedCode (s : List Char) : Option FencedCode :=
  match fullLines s with
  | [] => none
  | first :: lines =>
    (openingFence? first).bind fun (ticks, info) =>
      match lines.dropWhile (staysOpen ticks) with
      | [] => none
      | _ :: rest => some ⟨ticks, info, (lines.takeWhile (staysOpen ticks)).flatten, rest⟩

theorem three_le_backtickCount (value : List Char) : 3 ≤ backtickCount value :=
  le_max_left _ _

/-! The fence. -/

theorem takeWhile_backtickFence {x : Char} (hx : x ≠ '`') (value t : List Char) :
    (backtickFence value ++ x :: t).takeWhile (· == '`') = backtickFence value := by
  have hfence : ∀ c ∈ backtickFence value, (c == '`') = true := fun c hc => by
    simpa using List.eq_of_mem_replicate hc
  rw [List.takeWhile_append_of_pos hfence, List.takeWhile_cons_of_neg (by simpa using hx),
    List.append_nil]

theorem dropWhile_backtickFence {x : Char} (hx : x ≠ '`') (value t : List Char) :
    (backtickFence value ++ x :: t).dropWhile (· == '`') = x :: t := by
  have hfence : ∀ c ∈ backtickFence value, (c == '`') = true := fun c hc => by
    simpa using List.eq_of_mem_replicate hc
  rw [List.dropWhile_append_of_pos hfence, List.dropWhile_cons_of_neg (by simpa using hx)]

theorem openingFence?_backtickFence {info : List Char} (htick : '`' ∉ info) (hline : '\n' ∉ info)
    (value : List Char) :
    openingFence? (backtickFence value ++ info ++ ['\n']) =
      some (backtickCount value, info) := by
  have hstart : ∃ x t, info ++ ['\n'] = x :: t ∧ x ≠ '`' := by
    cases info with
    | nil => exact ⟨'\n', [], rfl, by decide⟩
    | cons x t => exact ⟨x, t ++ ['\n'], rfl, fun hx => htick (hx ▸ List.mem_cons_self)⟩
  obtain ⟨x, t, heq, hx⟩ := hstart
  have hinfo : trimNewlines ((backtickFence value ++ x :: t).dropWhile (· == '`')) = info := by
    rw [dropWhile_backtickFence hx, ← heq, trimNewlines_line hline]
  have hticks : ((backtickFence value ++ x :: t).takeWhile (· == '`')).length =
      backtickCount value := by
    rw [takeWhile_backtickFence hx, backtickFence, List.length_replicate]
  rw [List.append_assoc, heq, openingFence?]
  simp only [hinfo, hticks]
  exact if_pos ⟨three_le_backtickCount value, htick⟩

theorem staysOpen_backtickFence (value : List Char) :
    staysOpen (backtickCount value) (backtickFence value ++ ['\n']) = false := by
  have hfirst : ∃ t, backtickFence value ++ ['\n'] = '`' :: t := by
    have hcount : backtickCount value = backtickCount value - 1 + 1 := by
      have := three_le_backtickCount value
      omega
    rw [backtickFence, hcount, List.replicate_succ]
    exact ⟨_, rfl⟩
  obtain ⟨t, ht⟩ := hfirst
  have hindent : (backtickFence value ++ ['\n']).takeWhile (· == ' ') = [] := by
    rw [ht]
    rfl
  have hmarks : (backtickFence value ++ ['\n']).dropWhile (· == ' ') =
      backtickFence value ++ ['\n'] := by
    rw [ht]
    rfl
  have hticks : ((backtickFence value ++ ['\n']).takeWhile (· == '`')).length =
      backtickCount value := by
    rw [takeWhile_backtickFence (by decide), backtickFence, List.length_replicate]
  have htail : trimNewlines ((backtickFence value ++ ['\n']).dropWhile (· == '`')) = [] := by
    rw [dropWhile_backtickFence (by decide)]
    rfl
  simp [staysOpen, closesFence, hindent, hmarks, hticks, htail]

/-- A line that closes a fence holds the fence. -/
theorem replicate_infix_of_closesFence {ticks : Nat} {line : List Char}
    (h : closesFence ticks line = true) : List.replicate ticks '`' <:+: line := by
  simp only [closesFence, Bool.and_eq_true, decide_eq_true_eq] at h
  obtain ⟨⟨-, hticks⟩, -⟩ := h
  have hrun : (line.dropWhile (· == ' ')).takeWhile (· == '`') =
      List.replicate ((line.dropWhile (· == ' ')).takeWhile (· == '`')).length '`' := by
    refine List.eq_replicate_of_mem fun c hc => ?_
    simpa using List.all_eq_true.mp List.all_takeWhile c hc
  have hinfix : (line.dropWhile (· == ' ')).takeWhile (· == '`') <:+: line :=
    (List.takeWhile_prefix _).isInfix.trans (List.dropWhile_suffix _).isInfix
  obtain ⟨more, hmore⟩ := Nat.exists_eq_add_of_le hticks
  rw [hrun, hmore, List.replicate_add] at hinfix
  exact (List.prefix_append _ _).isInfix.trans hinfix

theorem runsBelow_backtickCount (value : List Char) :
    RunsBelow '`' (backtickCount value) (closedLine value) := by
  have hvalue : RunsBelow '`' (backtickCount value) value := by
    unfold RunsBelow backtickCount
    omega
  have hempty : RunsBelow '`' (backtickCount value) [] :=
    (three_le_backtickCount value).trans_lt' (by decide)
  unfold closedLine
  split
  · exact hvalue
  · exact hvalue.append_cons (by decide) hempty

/-- No line of the code closes the block. -/
theorem staysOpen_of_mem {value line : List Char} (h : line ∈ fullLines (closedLine value)) :
    staysOpen (backtickCount value) line = true := by
  rw [staysOpen, Bool.not_eq_true', ← Bool.not_eq_true]
  intro hcloses
  have hinfix := (replicate_infix_of_closesFence hcloses).trans (infix_of_mem_fullLines h)
  exact (runsBelow_backtickCount value).not_infix_replicate hinfix

/-! The lines of a block. -/

theorem fullLines_append_of_wholeLines {s : List Char} (h : WholeLines s) (t : List Char) :
    fullLines (s ++ t) = fullLines s ++ fullLines t := by
  rcases h with rfl | h
  · rfl
  · obtain ⟨u, rfl⟩ := List.getLast?_eq_some_iff.mp h
    rw [List.append_assoc, List.singleton_append, fullLines_append_newline]

theorem newline_not_mem_backtickFence (value : List Char) : '\n' ∉ backtickFence value :=
  fun hmem => absurd (List.eq_of_mem_replicate hmem) (by decide)

theorem fullLines_codeText {c : Code} (h : codeOptions c = []) (hline : '\n' ∉ plainInfo c) :
    fullLines (codeText c) =
      (backtickFence c.value.toList ++ plainInfo c ++ ['\n']) ::
        (fullLines (closedLine c.value.toList) ++ [backtickFence c.value.toList ++ ['\n']]) := by
  have hfence := newline_not_mem_backtickFence c.value.toList
  have hopening : '\n' ∉ backtickFence c.value.toList ++ plainInfo c := by
    rw [List.mem_append, not_or]
    exact ⟨hfence, hline⟩
  have htext : codeText c = (backtickFence c.value.toList ++ plainInfo c) ++ '\n' ::
      (closedLine c.value.toList ++ (backtickFence c.value.toList ++ ['\n'])) := by
    rw [codeText_of_options h]
    simp only [List.append_assoc, List.cons_append]
  rw [htext, fullLines_append_newline, fullLines_line hopening,
    fullLines_append_of_wholeLines (wholeLines_closedLine _), fullLines_line hfence]
  rfl

theorem plainInfo_forall {p : Char → Prop} (hspace : p ' ') {c : Code}
    (h : ∀ text, c.lang = some text ∨ c.metadata = some text → ∀ x ∈ text.toList, p x) :
    ∀ x ∈ plainInfo c, p x := by
  unfold plainInfo
  rw [List.forall_mem_append]
  constructor
  · cases hlang : c.lang with
    | none => simp
    | some lang => exact h lang (.inl hlang)
  · cases hinfo : c.metadata with
    | none => simp
    | some info => exact List.forall_mem_cons.mpr ⟨hspace, h info (.inr hinfo)⟩

/-- Code that is written without options reads back as it was, up to a newline at its end, and
nothing is left behind its fence. -/
theorem readFencedCode_write (separators : Bool) {c : Code} (hoptions : codeOptions c = [])
    (hinfo : ∀ text, c.lang = some text ∨ c.metadata = some text →
      '`' ∉ text.toList ∧ '\n' ∉ text.toList) :
    ∃ block, readFencedCode (write separators [.leaf (.code c)]).toList = some block ∧
      block.info = plainInfo c ∧ block.rest = [] ∧
      (block.value = c.value.toList ∨
        ¬ WholeLines c.value.toList ∧ block.value = c.value.toList ++ ['\n']) := by
  have hmarks : ∀ x ∈ plainInfo c, x ≠ '`' ∧ x ≠ '\n' := by
    refine plainInfo_forall (by decide) fun text htext x hx => ?_
    obtain ⟨htick, hline⟩ := hinfo text htext
    exact ⟨fun h => htick (h ▸ hx), fun h => hline (h ▸ hx)⟩
  have htick : '`' ∉ plainInfo c := fun h => (hmarks _ h).1 rfl
  have hline : '\n' ∉ plainInfo c := fun h => (hmarks _ h).2 rfl
  have hopen : ∀ line ∈ fullLines (closedLine c.value.toList),
      staysOpen (backtickCount c.value.toList) line = true := fun line => staysOpen_of_mem
  have hclose : ¬ staysOpen (backtickCount c.value.toList)
      (backtickFence c.value.toList ++ ['\n']) = true :=
    Bool.not_eq_true _ ▸ staysOpen_backtickFence _
  refine ⟨⟨backtickCount c.value.toList, plainInfo c, closedLine c.value.toList, []⟩, ?_, rfl, rfl,
    ?_⟩
  · rw [write_code, String.toList_ofList, readFencedCode, fullLines_codeText hoptions hline]
    simp only [openingFence?_backtickFence htick hline, Option.bind_some]
    rw [List.dropWhile_append_of_pos hopen, List.dropWhile_cons_of_neg hclose,
      List.takeWhile_append_of_pos hopen, List.takeWhile_cons_of_neg hclose, List.append_nil,
      flatten_fullLines]
  · by_cases hwhole : WholeLines c.value.toList
    · exact .inl (closedLine_of_wholeLines hwhole)
    · exact .inr ⟨hwhole, closedLine_of_not_wholeLines hwhole⟩

/-- Code that quotes fences of its own, with one at its end that no newline follows. -/
theorem readFencedCode_write_quotedFences :
    let sample : Code :=
      { lang := some "md", metadata := some "title", value := "```\nx\n   ````  \n\n```" }
    codeOptions sample = [] ∧
      (∀ text, sample.lang = some text ∨ sample.metadata = some text →
        '`' ∉ text.toList ∧ '\n' ∉ text.toList) ∧
      ∃ block, readFencedCode (write true [.leaf (.code sample)]).toList = some block ∧
        block.info = plainInfo sample ∧ block.rest = [] ∧
        (block.value = sample.value.toList ∨
          ¬ WholeLines sample.value.toList ∧ block.value = sample.value.toList ++ ['\n']) := by
  intro sample
  have hinfo : ∀ text, sample.lang = some text ∨ sample.metadata = some text →
      '`' ∉ text.toList ∧ '\n' ∉ text.toList := by
    rintro text (h | h)
    · cases h
      decide
    · cases h
      decide
  exact ⟨rfl, hinfo, readFencedCode_write true rfl hinfo⟩

end MystNotebook.Markdown
