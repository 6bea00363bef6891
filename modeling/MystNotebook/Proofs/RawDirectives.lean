import MystNotebook.Proofs.DirectiveParts
import MystNotebook.Proofs.FencedCode

/-! Directives that nobody parsed, whose body is a text. It is written as it is, between fences of
three colons whatever it holds, so a line of it that starts with three colons closes the
directive. -/
namespace MystNotebook.Markdown
open Text Draft

def staysInside (fence line : List Char) : Bool := !startsWith fence line

/-- What a directive holds behind its opening fence, up to the first line that starts with as many
colons, and the lines behind that line. -/
def readDirective (s : List Char) : Option (List Char × List (List Char)) :=
  let fence := s.takeWhile (· == ':')
  let lines := fullLines (s.dropWhile (· == ':'))
  match lines.dropWhile (staysInside fence) with
  | [] => none
  | _ :: rest => some ((lines.takeWhile (staysInside fence)).flatten, rest)

/-- What stands between the fences: the opening lines, and the body with a newline behind it. -/
def rawInside (name : String) (args : Option String) (options : Option Json.Fields)
    (value : String) : List Char :=
  directiveStart [] name args (rawOptions options) ++ closedLine value.toList

theorem block_rawBody_block (d : Draft) (head value closing : List Char) :
    ((d.block head).rawBody value).block closing =
      d.block (head ++ closedLine value ++ closing) := by
  by_cases h : WholeLines value
  · have hstart : (value.isEmpty || value.getLast? == some '\n') = true := by
      rcases h with rfl | h
      · rfl
      · simp [h]
    rw [closedLine_of_wholeLines h]
    simp [Draft.block, rawBody, Draft.newline, atLineStart, push, hstart]
  · rw [closedLine_of_not_wholeLines h]
    rw [WholeLines, not_or] at h
    simp [Draft.block, rawBody, Draft.newline, atLineStart, push, isEmpty, h.1, h.2]

theorem writeNode_raw (name : String) (args : Option String) (options : Option Json.Fields)
    (value : String) (d : Draft) :
    writeNode (.parent (.directive name args options (some value)) []) d =
      d.block (colonFence 0 ++ rawInside name args options value ++ (colonFence 0 ++ ['\n'])) := by
  have hstart : directiveStart (colonFence 0) name args (rawOptions options) =
      colonFence 0 ++ directiveStart [] name args (rawOptions options) := by
    simp [directiveStart]
  show ((d.block (directiveStart (colonFence 0) name args (rawOptions options))).rawBody
    value.toList).block (colonFence 0 ++ ['\n']) = _
  rw [block_rawBody_block, hstart, List.append_assoc (colonFence 0), ← rawInside]

/-! The lines between the fences. -/

theorem wholeLines_optionLines (options : List (String × String)) :
    WholeLines (optionLines options) := by
  induction options with
  | nil => exact .inl rfl
  | cons o options ih =>
    have hline : WholeLines (optionLine o.1 o.2) := .inr List.getLast?_concat
    exact hline.append ih

theorem wholeLines_directiveStart (fence : List Char) (name : String) (argument : Option String)
    (options : List (String × String)) :
    WholeLines (directiveStart fence name argument options) := by
  unfold directiveStart
  exact WholeLines.append (.inr List.getLast?_concat) (wholeLines_optionLines options)

theorem fullLines_rawInside (name : String) (args : Option String) (options : Option Json.Fields)
    (value : String) :
    fullLines (rawInside name args options value) =
      fullLines (directiveStart [] name args (rawOptions options)) ++
        fullLines (closedLine value.toList) :=
  fullLines_append_of_wholeLines (wholeLines_directiveStart _ _ _ _) _

theorem wholeLines_rawInside (name : String) (args : Option String)
    (options : Option Json.Fields) (value : String) :
    WholeLines (rawInside name args options value) :=
  (wholeLines_directiveStart _ _ _ _).append (wholeLines_closedLine _)

theorem exists_rawInside_eq_cons (name : String) (args : Option String)
    (options : Option Json.Fields) (value : String) :
    ∃ s, rawInside name args options value = '\x7b' :: s := ⟨_, rfl⟩

/-- Of lines that are not empty, those up to the first that fails make up the whole text only if
none fails. -/
theorem flatten_takeWhile_eq_iff {p : List Char → Bool} {lines : List (List Char)}
    (h : [] ∉ lines) :
    (lines.takeWhile p).flatten = lines.flatten ↔ ∀ line ∈ lines, p line = true := by
  rw [← List.takeWhile_eq_self_iff]
  constructor
  · intro heq
    have hsplit : lines.flatten = (lines.takeWhile p).flatten ++ (lines.dropWhile p).flatten := by
      rw [← List.flatten_append, List.takeWhile_append_dropWhile]
    rw [heq, List.self_eq_append_right, List.flatten_eq_nil_iff] at hsplit
    have hdrop : lines.dropWhile p = [] := by
      refine List.eq_nil_iff_forall_not_mem.mpr fun line hline => h ?_
      rw [← hsplit line hline]
      exact (List.dropWhile_suffix p).subset hline
    have happend := List.takeWhile_append_dropWhile (p := p) (l := lines)
    rwa [hdrop, List.append_nil] at happend
  · intro heq
    rw [heq]

theorem takeWhile_append_stop {p : List Char → Bool} {line : List Char} (h : ¬ p line = true)
    (lines rest : List (List Char)) :
    (lines ++ line :: rest).takeWhile p = lines.takeWhile p := by
  induction lines with
  | nil => exact List.takeWhile_cons_of_neg h
  | cons first lines ih =>
    rw [List.cons_append, List.takeWhile_cons, List.takeWhile_cons, ih]

/-- Whatever follows, the closing fence is the first that can close the directive exactly if no
line between the fences starts with three colons. -/
theorem readDirective_iff {inside : List Char} (hinside : WholeLines inside)
    (hstart : ∃ s, inside = '\x7b' :: s) (after : List Char) :
    readDirective (colonFence 0 ++ inside ++ (colonFence 0 ++ ['\n']) ++ after) =
        some (inside, fullLines after) ↔
      ∀ line ∈ fullLines inside, ¬ colonFence 0 <+: line := by
  obtain ⟨s, rfl⟩ := hstart
  have hfence : (colonFence 0 ++ '\x7b' :: s ++ (colonFence 0 ++ ['\n']) ++ after).takeWhile
      (· == ':') = colonFence 0 := rfl
  have hrest : (colonFence 0 ++ '\x7b' :: s ++ (colonFence 0 ++ ['\n']) ++ after).dropWhile
      (· == ':') = '\x7b' :: s ++ (colonFence 0 ++ '\n' :: after) := by
    simp [colonFence]
  have hlines : fullLines ('\x7b' :: s ++ (colonFence 0 ++ '\n' :: after)) =
      fullLines ('\x7b' :: s) ++ (colonFence 0 ++ ['\n']) :: fullLines after := by
    rw [fullLines_append_of_wholeLines hinside, fullLines_append_newline,
      fullLines_line (by decide), List.singleton_append]
  have hstops (line : List Char) :
      staysInside (colonFence 0) line = true ↔ ¬ colonFence 0 <+: line := by
    rw [staysInside, Bool.not_eq_true', Bool.eq_false_iff, startsWith, ne_eq,
      List.isPrefixOf_iff_prefix]
  have hclosing : ¬ staysInside (colonFence 0) (colonFence 0 ++ ['\n']) = true := by decide
  rw [readDirective]
  simp only [hfence, hrest, hlines]
  constructor
  · intro h
    have htaken : ((fullLines ('\x7b' :: s)).takeWhile (staysInside (colonFence 0))).flatten =
        '\x7b' :: s := by
      split at h
      next => cases h
      next =>
        have hfirst := congrArg Prod.fst (Option.some.inj h)
        rwa [takeWhile_append_stop hclosing] at hfirst
    have hall : ((fullLines ('\x7b' :: s)).takeWhile (staysInside (colonFence 0))).flatten =
        (fullLines ('\x7b' :: s)).flatten := by
      rw [htaken, flatten_fullLines]
    have hempty : [] ∉ fullLines ('\x7b' :: s) := fun hmem => ne_nil_of_mem_fullLines hmem rfl
    rw [flatten_takeWhile_eq_iff hempty] at hall
    exact fun line hline => (hstops line).mp (hall line hline)
  · intro h
    have hopen : ∀ line ∈ fullLines ('\x7b' :: s), staysInside (colonFence 0) line = true :=
      fun line hline => (hstops line).mpr (h line hline)
    rw [List.dropWhile_append_of_pos hopen, List.dropWhile_cons_of_neg hclosing,
      List.takeWhile_append_of_pos hopen, List.takeWhile_cons_of_neg hclosing, List.append_nil,
      flatten_fullLines]

/-- The fences of a directive that nobody parsed have three colons whatever its body is. So the own
closing fence is the first that can close it, wherever it stands and whatever follows it, exactly if
neither an opening line nor a line of the body starts with three colons. -/
theorem readDirective_raw_iff (name : String) (args : Option String)
    (options : Option Json.Fields) (value : String) (d : Draft) :
    writeNode (.parent (.directive name args options (some value)) []) d =
        d.block (colonFence 0 ++ rawInside name args options value ++ (colonFence 0 ++ ['\n'])) ∧
      ∀ after : List Char,
        readDirective (colonFence 0 ++ rawInside name args options value ++
            (colonFence 0 ++ ['\n']) ++ after) =
          some (rawInside name args options value, fullLines after) ↔
        ∀ line ∈ fullLines (directiveStart [] name args (rawOptions options)) ++
          fullLines (closedLine value.toList), ¬ colonFence 0 <+: line := by
  refine ⟨writeNode_raw name args options value d, fun after => ?_⟩
  rw [readDirective_iff (wholeLines_rawInside name args options value)
    (exists_rawInside_eq_cons name args options value), fullLines_rawInside]

/-- A body that holds a directive ends at the opening line of that directive. -/
theorem readDirective_raw_note :
    let body := ":::\x7bnote\x7d\nhi\n:::"
    let text := ":::\x7bunknown\x7d\n:::\x7bnote\x7d\nhi\n:::\n:::\n"
    write true [.parent (.directive "unknown" none none (some body)) []] = text ∧
      ":::\x7bnote\x7d\n".toList ∈ fullLines (closedLine body.toList) ∧
      colonFence 0 <+: ":::\x7bnote\x7d\n".toList ∧
      readDirective text.toList = some ("\x7bunknown\x7d\n".toList,
        ["hi\n".toList, ":::\n".toList, ":::\n".toList]) := by
  decide

end MystNotebook.Markdown
