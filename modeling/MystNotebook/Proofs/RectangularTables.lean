import MystNotebook.Proofs.ShownLeaves
import MystNotebook.Proofs.TextParts

/-! Pipe tables as lines. Whatever a cell holds, its text is joined to one line and its bars are
escaped, so the bars that stand bare are those that the row writes between its cells. A row is
filled up by the number of its children, of which only the cells are written; so a table is
rectangular exactly if its rows hold nothing but cells. -/
namespace MystNotebook

namespace Text

/-- How many bars have no backslash right before them; `escaped` says that one stands before the
text. -/
def bareBars (escaped : Bool) : List Char → Nat
  | [] => 0
  | c :: s => (if c = '|' ∧ escaped = false then 1 else 0) + bareBars (c == '\\') s

/-- A part of a line with `n` bare bars, which leaves the bars behind it as they are. -/
structure HasBars (n : Nat) (s : List Char) : Prop where
  line : '\n' ∉ s
  bars : ∀ t, bareBars false (s ++ t) = n + bareBars false t

namespace HasBars
variable {m n : Nat} {s t : List Char}

theorem nil : HasBars 0 [] := ⟨List.not_mem_nil, fun _ => (Nat.zero_add _).symm⟩

theorem append (hs : HasBars m s) (ht : HasBars n t) : HasBars (m + n) (s ++ t) := by
  constructor
  · rw [List.mem_append, not_or]
    exact ⟨hs.line, ht.line⟩
  · intro u
    rw [List.append_assoc, hs.bars, ht.bars, Nat.add_assoc]

theorem flatMap {α : Type} {f : α → List Char} (h : ∀ a, HasBars 1 (f a)) (l : List α) :
    HasBars l.length (l.flatMap f) := by
  induction l with
  | nil => exact nil
  | cons a l ih =>
    rw [List.flatMap_cons, List.length_cons, Nat.add_comm]
    exact (h a).append ih

/-- A bar is bare unless a backslash stands before it. -/
theorem of_concat (h : ∀ c ∈ s, c ≠ '|' ∧ c ≠ '\\' ∧ c ≠ '\n') : HasBars 1 (s ++ ['|']) := by
  constructor
  · rw [List.mem_append, not_or]
    exact ⟨fun hmem => (h _ hmem).2.2 rfl, by decide⟩
  · intro t
    rw [List.append_assoc, List.singleton_append]
    induction s with
    | nil => simp [bareBars]
    | cons c s ih =>
      obtain ⟨⟨hbar, hslash, -⟩, hs⟩ := List.forall_mem_cons.mp h
      rw [List.cons_append, bareBars, beq_false_of_ne hslash, ih hs, if_neg fun hc => hbar hc.1,
        Nat.zero_add]

theorem isEndedLine (h : HasBars n s) : IsEndedLine (s ++ ['\n']) := isEndedLine_concat.mpr h.line

theorem bareBars_line (h : HasBars n s) : bareBars false (s ++ ['\n']) = n := h.bars ['\n']

end HasBars

/-- Bars that get a backslash are not bare, whatever stands before them. -/
theorem bareBars_replace_append (escaped : Bool) (s t : List Char) :
    bareBars escaped (replace '|' ['\\', '|'] s ++ ' ' :: t) = bareBars false t := by
  induction s generalizing escaped with
  | nil => simp [replace, bareBars]
  | cons c s ih =>
    rw [replace, List.flatMap_cons, ← replace, List.append_assoc]
    by_cases hc : c = '|'
    · rw [if_pos hc, List.cons_append, List.cons_append, List.nil_append, bareBars, bareBars, ih]
      simp
    · rw [if_neg hc, List.cons_append, List.nil_append, bareBars, ih]
      simp [hc]

end Text

namespace Markdown
open Text Draft

/-! The parts of a row. -/

theorem hasBars_bar : HasBars 1 ['|'] := HasBars.of_concat (List.forall_mem_nil _)

theorem hasBars_missingCells (count : Nat) : HasBars count (missingCells count) := by
  have hmissing : HasBars 1 ([' '] ++ ['|']) := HasBars.of_concat (by simp)
  have hcells := HasBars.flatMap (fun _ => hmissing) (List.replicate count ())
  rwa [List.length_replicate, List.flatMap_replicate, List.singleton_append,
    ← missingCells] at hcells

theorem hasBars_alignMark (a : Option Align) : HasBars 1 (alignMark a) := by
  rcases a with _ | _ | _ | _
  · exact HasBars.of_concat (s := "----".toList) (by simp)
  · exact HasBars.of_concat (s := ":---".toList) (by simp)
  · exact HasBars.of_concat (s := ":--:".toList) (by simp)
  · exact HasBars.of_concat (s := "---:".toList) (by simp)

theorem hasBars_cell (content : List Char) :
    HasBars 1 (' ' :: (cellText content ++ [' ', '|'])) := by
  constructor
  · have hcontent : '\n' ∉ cellText content := by
      rw [cellText, mem_replace_iff (by decide) (by decide)]
      exact not_mem_replace (by decide) _
    simp [hcontent]
  · intro t
    have hbars : bareBars false (cellText content ++ ' ' :: '|' :: t) = bareBars false ('|' :: t) :=
      bareBars_replace_append false _ _
    rw [List.cons_append, List.append_assoc, List.cons_append, List.singleton_append, bareBars,
      if_neg (by decide), Nat.zero_add]
    exact hbars

theorem writeCells_cons {c : Node} (h : isTableCell c = false) (cs : List Node) (d : Draft) :
    writeCells (c :: cs) d = writeCells cs d := by
  cases c with
  | leaf l => rfl
  | parent p content =>
    cases p with
    | tableCell header => cases h
    | _ => rfl

theorem writeRows_cons {row : Node} (h : isTableRow row = false) (columns : Nat)
    (align : List (Option Align)) (first : Bool) (rows : List Node) (d : Draft) :
    writeRows columns align first (row :: rows) d = writeRows columns align first rows d := by
  cases row with
  | leaf l => rfl
  | parent p cells =>
    cases p with
    | tableRow => cases h
    | _ => rfl

/-- Only the cells among the children of a row are written. -/
theorem hasBars_writeCells (cs : List Node) (d : Draft) :
    ∃ s, (writeCells cs d).page = s.reverse ++ d.page ∧ HasBars (cs.countP isTableCell) s := by
  induction cs generalizing d with
  | nil => exact ⟨[], rfl, HasBars.nil⟩
  | cons c cs ih =>
    cases hc : isTableCell c with
    | false =>
      rw [writeCells_cons hc, List.countP_cons_of_neg (by simp [hc])]
      exact ih d
    | true =>
      cases c with
      | leaf l => cases hc
      | parent p content =>
        cases p with
        | tableCell header =>
          let inner := (d.push [' ']).capture (writeUnwrapped content)
          obtain ⟨s, hpage, hs⟩ := ih (inner.2.push (cellText inner.1 ++ [' ', '|']))
          have hbars := (hasBars_cell inner.1).append hs
          rw [Nat.add_comm, ← List.countP_cons_of_pos hc] at hbars
          refine ⟨_, ?_, hbars⟩
          simp only [writeCells]
          rw [hpage]
          simp [inner, capture, push]
        | _ => cases hc

/-! The rows. -/

/-- How many bars a row has, of which some may be missing if it has children that are no cells. -/
def rowBars (columns : Nat) (row : Node) : Nat :=
  1 + row.children.countP isTableCell + (columns - row.children.length)

theorem rowBars_eq_iff {columns : Nat} {row : Node} (h : row.children.length ≤ columns) :
    rowBars columns row = columns + 1 ↔ ∀ c ∈ row.children, isTableCell c = true := by
  rw [← List.countP_eq_length, rowBars]
  have hcells : row.children.countP isTableCell ≤ row.children.length := List.countP_le_length
  omega

theorem length_le_columnCount {row : Node} {rows : List Node} (hrow : row ∈ rows)
    (h : isTableRow row = true) : row.children.length ≤ columnCount rows := by
  -- the count so far only grows, and the row is counted when it is met
  have hmono (rows : List Node) (n : Nat) : n ≤ rows.foldl
      (fun n row => if isTableRow row then max n row.children.length else n) n := by
    induction rows generalizing n with
    | nil => exact le_refl n
    | cons r rows ih =>
      rw [List.foldl_cons]
      refine le_trans ?_ (ih _)
      split
      · exact le_max_left _ _
      · exact le_refl n
  obtain ⟨front, back, rfl⟩ := List.append_of_mem hrow
  rw [columnCount, List.foldl_append, List.foldl_cons, if_pos h]
  exact (le_max_right _ _).trans (hmono back _)

theorem hasBars_separator (columns : Nat) (align : List (Option Align)) :
    ∃ s, separatorText columns align = s ++ ['\n'] ∧ HasBars (columns + 1) s := by
  have hmarks := hasBars_bar.append
    (HasBars.flatMap (fun i => hasBars_alignMark (align[i]?.getD none)) (List.range columns))
  rw [List.length_range, Nat.add_comm] at hmarks
  exact ⟨_, rfl, hmarks⟩

/-- A row is a line, whatever is written in its cells. -/
theorem hasBars_row (columns : Nat) (cells : List Node) (d : Draft) :
    ∃ s, ((writeCells cells (d.push ['|'])).push
        (missingCells (columns - cells.length) ++ ['\n'])).page = (s ++ ['\n']).reverse ++ d.page ∧
      HasBars (rowBars columns (.parent .tableRow cells)) s := by
  obtain ⟨s, hpage, hs⟩ := hasBars_writeCells cells (d.push ['|'])
  refine ⟨_, ?_, (hasBars_bar.append hs).append (hasBars_missingCells (columns - cells.length))⟩
  rw [push, hpage]
  simp [push]

/-- A row, with the separator behind it if it is the first one. -/
theorem lines_row (columns : Nat) (align : List (Option Align)) (first : Bool) (cells : List Node)
    (d : Draft) :
    ∃ lines : List (List Char),
      (let row := (writeCells cells (d.push ['|'])).push
          (missingCells (columns - cells.length) ++ ['\n'])
        if first then row.push (separatorText columns align) else row).page =
          lines.flatten.reverse ++ d.page ∧
      (∀ line ∈ lines, IsEndedLine line) ∧ lines.length = 1 + (if first then 1 else 0) ∧
      ((∀ line ∈ lines, bareBars false line = columns + 1) ↔
        rowBars columns (.parent .tableRow cells) = columns + 1) := by
  obtain ⟨s, hpage, hs⟩ := hasBars_row columns cells d
  cases first with
  | false =>
    refine ⟨[s ++ ['\n']], ?_, List.forall_mem_singleton.mpr hs.isEndedLine, rfl, ?_⟩
    · rw [List.flatten_singleton]
      exact hpage
    · rw [List.forall_mem_singleton, hs.bareBars_line]
  | true =>
    obtain ⟨separator, hseparator, hmarks⟩ := hasBars_separator columns align
    refine ⟨[s ++ ['\n'], separator ++ ['\n']], ?_, ?_, rfl, ?_⟩
    · simp only [if_true]
      rw [push, hpage, hseparator]
      simp
    · exact List.forall_mem_cons.mpr ⟨hs.isEndedLine,
        List.forall_mem_singleton.mpr hmarks.isEndedLine⟩
    · rw [List.forall_mem_cons, List.forall_mem_singleton, hs.bareBars_line, hmarks.bareBars_line]
      exact and_iff_left rfl

/-- Each row is a line with its bars, and behind the first one comes the separator. -/
theorem lines_writeRows (columns : Nat) (align : List (Option Align)) (first : Bool)
    (rows : List Node) (d : Draft) :
    ∃ lines : List (List Char),
      (writeRows columns align first rows d).page = lines.flatten.reverse ++ d.page ∧
      (∀ line ∈ lines, IsEndedLine line) ∧
      lines.length = rows.countP isTableRow + (if first && rows.any isTableRow then 1 else 0) ∧
      ((∀ line ∈ lines, bareBars false line = columns + 1) ↔
        ∀ row ∈ rows, isTableRow row = true → rowBars columns row = columns + 1) := by
  induction rows generalizing first d with
  | nil => exact ⟨[], rfl, by simp, by simp, by simp⟩
  | cons row rows ih =>
    cases hrow : isTableRow row with
    | false =>
      rw [writeRows_cons hrow, List.countP_cons_of_neg (by simp [hrow])]
      simpa [hrow] using ih first d
    | true =>
      cases row with
      | leaf l => cases hrow
      | parent p cells =>
        cases p with
        | tableRow =>
          obtain ⟨head, hhead, hheadEnded, hheadLength, hheadBars⟩ :=
            lines_row columns align first cells d
          obtain ⟨rest, hrest, hrestEnded, hrestLength, hrestBars⟩ := ih false _
          refine ⟨head ++ rest, ?_, List.forall_mem_append.mpr ⟨hheadEnded, hrestEnded⟩, ?_, ?_⟩
          · rw [writeRows, hrest, hhead, List.flatten_append, List.reverse_append,
              List.append_assoc]
          · rw [List.length_append, hheadLength, hrestLength, List.countP_cons_of_pos hrow,
              List.any_cons, hrow]
            simp only [Bool.false_and, Bool.true_or, Bool.and_true, Bool.false_eq_true, if_false]
            omega
          · rw [List.forall_mem_append, hheadBars, hrestBars, List.forall_mem_cons,
              forall_prop_of_true hrow]
        | _ => cases hrow

/-! The table. -/

/-- Whatever stands before it, a table writes a line for each row and one more, and these lines have
all one bare bar more than there are columns exactly if the rows hold nothing but cells. What is in
the cells does not matter. -/
theorem bareBars_table_iff {rows : List Node} (h : rows.any isTableRow = true)
    (align : List (Option Align)) (d : Draft) :
    ∃ text, (writeNode (.parent (.table align) rows) d).page = text.reverse ++ d.newline.page ∧
      (∀ line ∈ fullLines text, IsEndedLine line) ∧
      (fullLines text).length = rows.countP isTableRow + 1 ∧
      ((∀ line ∈ fullLines text, bareBars false line = columnCount rows + 1) ↔
        ∀ row ∈ rows, isTableRow row = true → ∀ c ∈ row.children, isTableCell c = true) := by
  obtain ⟨lines, hpage, hended, hlength, hbars⟩ :=
    lines_writeRows (columnCount rows) align true rows d.newline
  have hwritten : (writeNode (.parent (.table align) rows) d).page =
      lines.flatten.reverse ++ d.newline.page := by
    simp only [writeNode, h, if_true]
    exact hpage
  refine ⟨lines.flatten, hwritten, ?_⟩
  rw [fullLines_flatten hended, hbars]
  refine ⟨hended, by simpa [h] using hlength, ?_⟩
  refine forall₂_congr fun row hrow => forall_congr' fun hkind => ?_
  exact rowBars_eq_iff (length_le_columnCount hrow hkind)

/-- A short row, and cells with bars, a newline, a backslash at the end and a table in them. -/
theorem bareBars_table_ragged :
    let cell (cs : List Node) : Node := .parent (.tableCell none) cs
    let rows : List Node := [.parent .tableRow [cell [.text "a|b\nc\\"], cell []],
      .parent .tableRow [cell [.parent (.table []) [.parent .tableRow [cell [.text "x"]]]]]]
    let text := (writeNode (.parent (.table []) rows) {}).page.reverse
    rows.any isTableRow = true ∧
      text = "| a\\|b c\\ |  |\n|----|----|\n| \\| x \\| \\|----\\| | |\n".toList ∧
      ∀ line ∈ fullLines text, bareBars false line = columnCount rows + 1 := by
  intro cell rows text
  have h : rows.any isTableRow = true := by decide
  obtain ⟨written, hpage, -, -, hbars⟩ := bareBars_table_iff h [] {}
  have htext : text = written := by
    rw [show text = (writeNode (.parent (.table []) rows) {}).page.reverse from rfl, hpage]
    exact (congrArg List.reverse (List.append_nil _)).trans (List.reverse_reverse written)
  refine ⟨h, by decide, ?_⟩
  rw [htext]
  exact hbars.mpr (by decide)

/-- A child of a row that is no cell is counted and not written, so its row has a bar too few. -/
theorem write_strayText :
    let rows : List Node := [.parent .tableRow [.parent (.tableCell none) [.text "a"]],
      .parent .tableRow [.text "x"]]
    write true [.parent (.table []) rows] = "| a |\n|----|\n|\n" ∧
      "|\n".toList ∈ fullLines "| a |\n|----|\n|\n".toList ∧
      bareBars false "|\n".toList ≠ columnCount rows + 1 := by
  decide

end Markdown
end MystNotebook
