import MystNotebook.Proofs.AttachedCells
import MystNotebook.Proofs.BlockBreaks
import MystNotebook.Proofs.DirectiveFences
import MystNotebook.Proofs.EmbeddedRuns
import MystNotebook.Proofs.UnitTexts

/-! Colons in the cells of a CommonMark notebook. Degrading leaves no directive, so that a document
without colons is written without two of them side by side, whatever alignments, definitions and
metadata it has; and an attachment whose name starts with a colon sets one more behind its scheme.
-/
namespace MystNotebook
open Text

variable {k : Nat}

namespace CommonMark

theorem sealed_capitalize {s : String} (h : Sealed ':' k s.toList) :
    Sealed ':' k (Text.capitalize s).toList := by
  have hk : 0 < k := Nat.zero_lt_of_lt h.runs
  unfold Text.capitalize
  split
  next => exact sealed_of_not_mem hk (by simp)
  next x xs heq =>
    rw [heq] at h
    rw [String.toList_ofList]
    by_cases hx : x = ':'
    · have hupper : Text.upperCase ':' = [':'] := by decide +kernel
      rw [hx, hupper]
      rwa [hx] at h
    · have hupper : ':' ∉ Text.upperCase x :=
        Text.not_mem_upperCase (by decide) (by decide) (Ne.symm hx)
      have hxs : Sealed ':' k xs := Sealed.of_append (s := [x]) h
      exact (sealed_of_not_mem hk hupper).append hxs

/-- The colons that degrading writes by itself stand alone, with a blank behind. -/
theorem textClosed_sealed (hk : 2 ≤ k) : TextClosed fun s => Sealed ':' k s.toList := by
  have hm : Markdown.IsMark ':' k := .inl ⟨rfl, hk⟩
  constructor
  · intro s hs
    have hfixed : ∀ s ∈ fixedTexts, longestRun ':' 0 s.toList < 2 ∧ s.toList.getLast? ≠ some ':' ∧
        '+' ∉ s.toList := by
      decide
    exact hm.fixed s.toList (hfixed s hs)
  · intro s t hs ht
    rw [String.toList_append]
    exact hs.append ht
  · exact sealed_capitalize
  · intro s hs
    unfold withoutDomain
    split
    next rest heq =>
      rw [heq] at hs
      rw [String.toList_ofList]
      exact Sealed.of_append (s := ['p', 'r', 'f', ':']) hs
    next => exact hs

end CommonMark

namespace Markdown
open Draft
variable {c : Char}

theorem writes_top (hm : IsMark c k) {separators : Bool} {ns : List Node}
    (hquiet : ∀ n ∈ ns, n.Everywhere (Node.Quiet c k))
    (hbreaks : ∀ n ∈ ns, ∀ started, Sealed c k (blockBreak separators started n))
    (started : Bool) : Writes c k (writeTop separators started ns) := by
  induction ns generalizing started with
  | nil => exact Grows.refl hm
  | cons n ns ih =>
    obtain ⟨hn, hns⟩ := List.forall_mem_cons.mp hquiet
    obtain ⟨hbreak, hbreaks⟩ := List.forall_mem_cons.mp hbreaks
    intro d
    have hstart := ((Grows.refl hm d).separated hm started).push (hbreak started)
    simp only [writeTop]
    exact (ih hns hbreaks true).after (writes_asBlock hm hn.self (writes_of_quiet hm n hn).1 hstart)

/-- The text of a document starts on an empty page. -/
theorem runsBelow_write (hm : IsMark c k) (separators : Bool) {ns : List Node}
    (hquiet : ∀ n ∈ ns, n.Everywhere (Node.Quiet c k))
    (hbreaks : ∀ n ∈ ns, ∀ started, Sealed c k (blockBreak separators started n)) :
    RunsBelow c k (write separators ns).toList := by
  obtain ⟨t, hpage, ht⟩ := (writes_top hm hquiet hbreaks false {}).newline hm
  have htext : (draftOf separators ns).page = t.reverse := by
    rw [draftOf, hpage, List.append_nil]
  rw [write, String.toList_ofList, htext, List.reverse_reverse]
  exact ht.runs

/-- The metadata behind a break is JSON, which has no colons side by side. -/
theorem sealed_blockBreak (hm : IsMark ':' k) {n : Node}
    (h : ∀ s ∈ n.texts, RunsBelow ':' k s.toList) (separators started : Bool) :
    Sealed ':' k (blockBreak separators started n) := by
  have hseparator : Sealed ':' k (if started && separators then "+++\n\n".toList else []) := by
    split
    · exact sealed_of_not_mem hm.pos (by decide)
    · exact hm.nil
  unfold blockBreak
  split
  next kind data target cs =>
    split
    · exact hseparator
    · have hdata : ∀ s ∈ (Json.Value.ofFields data).texts, RunsBelow ':' k s.toList := by
        intro s hs
        refine h s ?_
        simp only [Node.texts, Parent.texts, List.mem_append]
        exact .inl (.inr hs)
      have hstart : Sealed ':' k "+++ ".toList := sealed_of_not_mem hm.pos (by decide)
      rw [List.append_assoc]
      exact hstart.append ((Json.Value.runsBelow_compact hm.two_le hdata).sealed_append_cons
        (by decide) hm.newline)
  next => exact hseparator
  next => exact hm.nil

end Markdown

namespace Notebook
open CommonMark Markdown

theorem runsBelow_sourceText_markdownCell (images : Images) {text : String}
    (h : RunsBelow ':' 2 text.toList) :
    RunsBelow ':' 3 (markdownCell images text).sourceText.toList := by
  have hstripped : RunsBelow ':' 2 (String.ofList (stripBlockBreaks text.toList)).toList := by
    rw [String.toList_ofList]
    exact h.of_isInfix (stripBlockBreaks_isSuffix text.toList).isInfix
  have htrimmed {s : String} (hs : RunsBelow ':' 3 s.toList) (attachments : Option Attachments) :
      RunsBelow ':' 3 (Cell.ofMarkdown s attachments).sourceText.toList := by
    rw [Cell.sourceText_ofMarkdown, String.toList_ofList]
    exact hs.of_isInfix (dropEndWhile_isPrefix _ s.toList).isInfix
  cases images with
  | reference => exact htrimmed (hstripped.mono (by decide)) none
  | attachment images =>
    exact htrimmed (Attachment.runsBelow_embed (Attachment.nameBounds_colon (le_refl 2)) images
      hstripped) _

/-- In CommonMark, a document without a colon in its texts has no fence of a directive in its
cells, and no three colons side by side at all. -/
theorem ofDocument_fenceless {options : NotebookOptions}
    (hcommonMark : options.markdown = .commonMark) (frontmatter : Option Frontmatter)
    {ns : List Node} (h : ∀ m ∈ Node.preorderAll ns, ∀ s ∈ m.texts, ':' ∉ s.toList) :
    ∀ cell ∈ (ofDocument options frontmatter ns).1.cells, cell.isCode = false →
      ¬ ":::".toList <:+: cell.sourceText.toList := by
  intro cell hcell hprose
  rw [ofDocument_eq] at hcell
  obtain ⟨unit, hunit, hcell⟩ := List.mem_flatMap.mp hcell
  rw [unitCells, ofUnit] at hcell
  split at hcell
  next =>
    rw [List.mem_singleton.mp hcell] at hprose
    cases hprose
  next =>
    have hm : IsMark ':' 2 := .inl ⟨rfl, le_refl 2⟩
    have hquiet := quiet_prepared hcommonMark (textClosed_sealed (le_refl 2)) (fun s hs => hs)
      (fun m hmem s hs => sealed_of_not_mem (by decide) (h m hmem s hs)) hunit
    have hwritten := runsBelow_write hm true hquiet fun n hn started =>
      sealed_blockBreak hm (fun s hs => ((hquiet n hn).self.texts s hs).runs) true started
    have hruns := runsBelow_sourceText_markdownCell options.images hwritten
    rw [proseCells] at hcell
    split at hcell
    · cases hcell
    · rw [List.mem_singleton.mp hcell]
      exact hruns.not_infix_replicate

/-- Nested directives are written in CommonMark as a quotation, with their titles in bold. -/
theorem ofDocument_fenceless_nestedTabs :
    let options : NotebookOptions := { markdown := .commonMark }
    let cell : Cell := .markdown ["> **Note**\n", ">\n", "> **one**\n", ">\n", "> x"] none
    (∀ m ∈ Node.preorderAll [nestedTabs], ∀ s ∈ m.texts, ':' ∉ s.toList) ∧
      (ofDocument options none [nestedTabs]).1.cells = [cell] ∧
      ¬ ":::".toList <:+: cell.sourceText.toList := by
  intro options cell
  have hcolonFree : ∀ m ∈ Node.preorderAll [nestedTabs], ∀ s ∈ m.texts, ':' ∉ s.toList := by
    decide
  have hlift : CodeCell.lift options.dropsSolutions [nestedTabs] = [nestedTabs] := by decide
  have htext : write true (prepared options nestedTabs) =
      "> **Note**\n>\n> **one**\n>\n> x\n" := by decide
  have hstripped : stripBlockBreaks "> **Note**\n>\n> **one**\n>\n> x\n".toList =
      "> **Note**\n>\n> **one**\n>\n> x\n".toList :=
    stripBlockBreaks_eq_self (by decide) (by decide)
  have hcell : markdownCell .reference "> **Note**\n>\n> **one**\n>\n> x\n" = cell := by
    rw [markdownCell_reference, hstripped]
    decide
  have hprose : proseCells .reference (prepared options nestedTabs) = [cell] := by
    rw [proseCells, htext, hcell]
    decide
  have hcells : (ofDocument options none [nestedTabs]).1.cells = [cell] := by
    rw [ofDocument_eq, hlift, List.flatMap_singleton, unitCells, ofUnit, if_neg (by decide)]
    dsimp only [ofCells]
    exact hprose
  refine ⟨hcolonFree, hcells, ?_⟩
  have hmem : cell ∈ (ofDocument options none [nestedTabs]).1.cells := by
    rw [hcells]
    exact List.mem_cons_self
  exact ofDocument_fenceless rfl none hcolonFree cell hmem rfl

end Notebook
end MystNotebook
