import MystNotebook.Proofs.AttachedCells
import MystNotebook.Proofs.EmbeddedRuns
import MystNotebook.Proofs.InnerBlocks
import MystNotebook.Proofs.UnitTexts

/-! Block breaks in the cells of a CommonMark notebook. The lines of a cell that look like breaks
are the breaks of inner blocks; a document without a plus in its texts has no others. -/
namespace MystNotebook

/-- Embedding adds no plus. -/
theorem Attachment.plus_not_mem_embed (images : ImageMap) {markdown : String}
    (h : '+' ∉ markdown.toList) : '+' ∉ (embed images markdown).1.toList := by
  have hruns := Text.runsBelow_of_not_mem (k := 1) Nat.one_pos h
  exact Text.not_mem_of_runsBelow_one (runsBelow_embed (nameBounds_plus Nat.one_pos) images hruns)

/-- A Markdown cell with a line that starts as a block break does. -/
def Cell.HasBlockBreak (cell : Cell) : Prop :=
  cell.isCode = false ∧ ∃ line ∈ cell.source, ['+', '+', '+'] <+: line.toList

theorem Cell.plus_mem_of_hasBlockBreak {text : String} {attachments : Option Attachments}
    (h : (ofMarkdown text attachments).HasBlockBreak) : '+' ∈ text.toList := by
  obtain ⟨-, line, hline, hbreak⟩ := h
  obtain ⟨full, hfull, rfl⟩ := List.mem_map.mp hline
  rw [String.toList_ofList] at hbreak
  have hinfix : full <:+: text.toList :=
    (Text.infix_of_mem_fullLines hfull).trans (Text.dropEndWhile_isPrefix _ _).isInfix
  exact hinfix.subset (hbreak.subset List.mem_cons_self)

/-- A break below the first line stays when newlines at the end are dropped. -/
theorem Cell.hasBlockBreak_ofMarkdown (front rest : List Char) (attachments : Option Attachments) :
    (ofMarkdown (String.ofList (front ++ '\n' :: '+' :: '+' :: '+' :: rest))
      attachments).HasBlockBreak := by
  have hsplit : front ++ '\n' :: '+' :: '+' :: '+' :: rest =
      (front ++ ['\n', '+', '+']) ++ '+' :: rest := by simp
  have htrim : Text.trimNewlines (front ++ '\n' :: '+' :: '+' :: '+' :: rest) =
      front ++ '\n' :: (['+', '+', '+'] ++ Text.trimNewlines rest) := by
    rw [hsplit, Text.trimNewlines_append_cons (by decide)]
    simp
  obtain ⟨line, lines, hlines⟩ := Text.exists_fullLines_eq_cons (s := ['+', '+', '+']) (by simp)
    (by decide) (Text.trimNewlines rest)
  refine ⟨rfl, String.ofList (['+', '+', '+'] ++ line), ?_, ?_⟩
  · refine List.mem_map_of_mem ?_
    rw [String.toList_ofList, htrim, Text.fullLines_append_newline, hlines]
    exact List.mem_append_right _ List.mem_cons_self
  · rw [String.toList_ofList]
    exact List.prefix_append _ line

namespace Notebook
open Markdown
variable {ns : List Node}

theorem hasInnerBlock_of_hasBlockBreak (h : ∀ n ∈ ns, n.Everywhere (Node.Quiet '+' 1))
    {images : Images} {cell : Cell} (hcell : cell ∈ proseCells images ns)
    (hbreak : cell.HasBlockBreak) : HasInnerBlock ns := by
  refine hasInnerBlock_of_plus_mem h ?_
  by_contra hplus
  have htext : '+' ∉ (String.ofList (stripBlockBreaks (write true ns).toList)).toList := by
    rwa [String.toList_ofList]
  rw [proseCells] at hcell
  split at hcell
  · cases hcell
  · obtain rfl := List.mem_singleton.mp hcell
    cases images with
    | reference => exact htext (Cell.plus_mem_of_hasBlockBreak hbreak)
    | attachment images =>
      exact Attachment.plus_not_mem_embed images htext (Cell.plus_mem_of_hasBlockBreak hbreak)

theorem exists_hasBlockBreak (h : ∀ n ∈ ns, n.Everywhere (Node.Quiet '+' 1))
    (hinner : HasInnerBlock ns) : ∃ cell ∈ proseCells .reference ns, cell.HasBlockBreak := by
  obtain ⟨front, rest, hstripped⟩ := exists_break_of_hasInnerBlock h hinner
  have hcell : markdownCell .reference (write true ns) =
      .ofMarkdown (String.ofList (front ++ '\n' :: '+' :: '+' :: '+' :: rest)) none := by
    rw [markdownCell_reference, ← textOf, hstripped]
  have hbreak : (markdownCell .reference (write true ns)).HasBlockBreak := by
    rw [hcell]
    exact Cell.hasBlockBreak_ofMarkdown front rest none
  have hvisible : (markdownCell .reference (write true ns)).isBlank = false := by
    rw [hcell, Cell.isBlank_ofMarkdown, String.toList_ofList]
    simp [Text.isBlank]
  refine ⟨_, ?_, hbreak⟩
  rw [proseCells, hvisible]
  exact List.mem_singleton_self _

/-- What a unit is written from has no plus where the document has none. -/
theorem quiet_prepared_of_plusFree {options : NotebookOptions}
    (hcommonMark : options.markdown = .commonMark)
    (h : ∀ m ∈ Node.preorderAll ns, ∀ s ∈ m.texts, '+' ∉ s.toList) {unit : Node}
    (hunit : unit ∈ CodeCell.lift options.dropsSolutions ns) :
    ∀ n ∈ prepared options unit, n.Everywhere (Node.Quiet '+' 1) := by
  have hclosed : CommonMark.TextClosed fun s => '+' ∉ s.toList :=
    CommonMark.textClosed_not_mem (by decide) (by decide) (by decide)
  exact quiet_prepared hcommonMark hclosed (fun s hs => Text.sealed_of_not_mem Nat.one_pos hs) h
    hunit

/-- In CommonMark, a document without a plus in its texts has block breaks in its cells only where
degrading has put blocks behind other content of the same unit, and where images stay references
each such block does leave its break. -/
theorem ofDocument_blockBreaks {options : NotebookOptions}
    (hcommonMark : options.markdown = .commonMark) (frontmatter : Option Frontmatter)
    (h : ∀ m ∈ Node.preorderAll ns, ∀ s ∈ m.texts, '+' ∉ s.toList) :
    ((∃ cell ∈ (ofDocument options frontmatter ns).1.cells, cell.HasBlockBreak) →
      ∃ unit ∈ CodeCell.lift options.dropsSolutions ns, unit.isCodeCell = false ∧
        HasInnerBlock (prepared options unit)) ∧
    (options.images = .reference →
      (∃ unit ∈ CodeCell.lift options.dropsSolutions ns, unit.isCodeCell = false ∧
        HasInnerBlock (prepared options unit)) →
      ∃ cell ∈ (ofDocument options frontmatter ns).1.cells, cell.HasBlockBreak) := by
  rw [ofDocument_eq]
  constructor
  · rintro ⟨cell, hcell, hbreak⟩
    obtain ⟨unit, hunit, hcell⟩ := List.mem_flatMap.mp hcell
    rw [unitCells, ofUnit] at hcell
    split at hcell
    · obtain rfl := List.mem_singleton.mp hcell
      exact absurd hbreak.1 (by simp [Cell.ofCode, Cell.isCode])
    next hcode =>
      have hquiet := quiet_prepared_of_plusFree hcommonMark h hunit
      exact ⟨unit, hunit, by simpa using hcode, hasInnerBlock_of_hasBlockBreak hquiet hcell hbreak⟩
  · rintro himages ⟨unit, hunit, hcode, hinner⟩
    obtain ⟨cell, hcell, hbreak⟩ :=
      exists_hasBlockBreak (quiet_prepared_of_plusFree hcommonMark h hunit) hinner
    refine ⟨cell, List.mem_flatMap.mpr ⟨unit, hunit, ?_⟩, hbreak⟩
    rw [unitCells, ofUnit, hcode, himages]
    exact hcell

def proseBlock (text : String) : Node :=
  .parent (.block none none {}) [.parent .paragraph [.leaf (.text text)]]

/-- The blocks of an exercise are written behind its title. -/
theorem ofDocument_blockBreaks_exercise :
    let options : NotebookOptions := { markdown := .commonMark }
    let exercise : Node := .parent (.exercise {} none none) [proseBlock "one", proseBlock "two"]
    (∀ m ∈ Node.preorderAll [exercise], ∀ s ∈ m.texts, '+' ∉ s.toList) ∧
      ∃ cell ∈ (ofDocument options none [exercise]).1.cells, cell.HasBlockBreak := by
  intro options exercise
  have hplus : ∀ m ∈ Node.preorderAll [exercise], ∀ s ∈ m.texts, '+' ∉ s.toList := by decide
  have hlift : CodeCell.lift options.dropsSolutions [exercise] = [exercise] := by decide
  have hunit : exercise ∈ CodeCell.lift options.dropsSolutions [exercise] := by
    rw [hlift]
    exact List.mem_singleton_self exercise
  have hinner : HasInnerBlock (prepared options exercise) := by
    refine ⟨[.parent .paragraph [.parent .strong [.leaf (.text "Exercise")]]], none, none, {},
      [.parent .paragraph [.leaf (.text "one")]], [proseBlock "two"], by decide, ?_⟩
    have htext : write true [.parent .paragraph [.parent .strong [.leaf (.text "Exercise")]]] =
        "**Exercise**\n" := by decide
    have hstripped : stripBlockBreaks "**Exercise**\n".toList = "**Exercise**\n".toList :=
      stripBlockBreaks_eq_self (by decide) (by decide)
    rw [htext, hstripped]
    decide
  have hbreaks := @ofDocument_blockBreaks [exercise] options rfl none hplus
  exact ⟨hplus, hbreaks.2 rfl ⟨exercise, hunit, rfl, hinner⟩⟩

/-- An included document of two blocks has nothing in front of the first, and its second block
leaves a break all the same. -/
theorem ofDocument_includedBlocks :
    let options : NotebookOptions := { markdown := .commonMark }
    let included : Node :=
      .parent (.inclusion (some "part.md")) [proseBlock "one", proseBlock "two"]
    (∀ m ∈ Node.preorderAll [included], ∀ s ∈ m.texts, '+' ∉ s.toList) ∧
      (ofDocument options none [included]).1.cells =
        [.markdown ["one\n", "\n", "+++\n", "\n", "two"] none] ∧
      ¬ ∀ cell ∈ (ofDocument options none [included]).1.cells, ¬ cell.HasBlockBreak := by
  intro options included
  have hlift : CodeCell.lift options.dropsSolutions [included] = [included] := by decide
  have htext : write true (prepared options included) = "one\n\n+++\n\ntwo\n" := by decide
  have hstripped : stripBlockBreaks "one\n\n+++\n\ntwo\n".toList =
      "one\n\n+++\n\ntwo\n".toList :=
    stripBlockBreaks_eq_self (by decide) (by decide)
  have hcell : markdownCell .reference "one\n\n+++\n\ntwo\n" =
      .markdown ["one\n", "\n", "+++\n", "\n", "two"] none := by
    rw [markdownCell_reference, hstripped]
    decide
  have hprose : proseCells .reference (prepared options included) =
      [.markdown ["one\n", "\n", "+++\n", "\n", "two"] none] := by
    rw [proseCells, htext, hcell]
    decide
  have hcells : (ofDocument options none [included]).1.cells =
      [.markdown ["one\n", "\n", "+++\n", "\n", "two"] none] := by
    rw [ofDocument_eq, hlift, List.flatMap_singleton, unitCells, ofUnit, if_neg (by decide)]
    dsimp only [ofCells]
    exact hprose
  refine ⟨by decide, hcells, fun hno => ?_⟩
  rw [hcells] at hno
  exact hno _ List.mem_cons_self ⟨rfl, "+++\n", by decide, by decide⟩

end Notebook
end MystNotebook
