import MystNotebook.Proofs.ConsistentNaming
import MystNotebook.Proofs.TextParts
import MystNotebook.Proofs.UnitCells

/-! Notebooks with attachments against notebooks with references. A reference to an image ends in a
parenthesis, so newlines at the end of a text are in none, and it does not matter whether a text is
trimmed before its images are embedded or afterwards. -/
namespace MystNotebook

namespace Attachment

/-! Text behind the last closing parenthesis. -/

section
variable {t : List Char}

theorem ImageReference.starts_append_iff (ht : ')' ∉ t) {r : ImageReference} {s rest : List Char} :
    r.Starts (s ++ t) rest ↔ ∃ rest', r.Starts s rest' ∧ rest = rest' ++ t := by
  constructor
  · rintro ⟨hvalid, heq⟩
    -- the parenthesis that ends the reference stands in `s`
    rcases List.append_eq_append_iff.mp heq with ⟨u, hsource, ht'⟩ | ⟨u, hs, hrest⟩
    · rcases List.eq_nil_or_concat u with rfl | ⟨u, c, rfl⟩
      · rw [List.append_nil] at hsource
        exact ⟨[], ⟨hvalid, by rw [hsource, List.append_nil]⟩, ht'.symm⟩
      · rw [List.concat_eq_append, ← List.append_assoc, ImageReference.source] at hsource
        have hc : [')'] = [c] := (List.append_inj' hsource rfl).2
        have hmem : c ∈ t := by simp [ht']
        exact absurd (List.singleton_inj.mp hc ▸ hmem) ht
    · exact ⟨u, ⟨hvalid, hs⟩, hrest⟩
  · rintro ⟨rest', ⟨hvalid, rfl⟩, rfl⟩
    exact ⟨hvalid, List.append_assoc _ _ _⟩

theorem ImageReference.read_append (ht : ')' ∉ t) (s : List Char) :
    read (s ++ t) = (read s).map fun e => (e.1, e.2 ++ t) := by
  cases h : read s with
  | some e =>
    obtain ⟨r, rest⟩ := e
    obtain ⟨hstarts, hno⟩ := read_eq_some_iff.mp h
    refine read_eq_some_iff.mpr ⟨(starts_append_iff ht).mpr ⟨rest, hstarts, rfl⟩, ?_⟩
    intro hbare r' rest' hangled hstarts'
    obtain ⟨rest'', h', -⟩ := (starts_append_iff ht).mp hstarts'
    exact hno hbare r' rest'' hangled h'
  | none =>
    refine read_eq_none_iff.mpr fun r rest hstarts => ?_
    obtain ⟨rest', h', -⟩ := (starts_append_iff ht).mp hstarts
    exact read_eq_none_iff.mp h r rest' h'

theorem segments_append (ht : ')' ∉ t) (s : List Char) :
    segments (s ++ t) = segments s ++ t.map .plain := by
  fun_induction segments s with
  | case1 =>
    rw [List.nil_append, List.nil_append]
    induction t with
    | nil => rw [segments, List.map_nil]
    | cons c t ih =>
      have hnone := ImageReference.read_append ht []
      rw [List.nil_append] at hnone
      rw [segments_of_read_eq_none hnone, ih (fun hmem => ht (List.mem_cons_of_mem c hmem)),
        List.map_cons]
  | case2 c cs r rest h ih =>
    have hread : ImageReference.read (c :: cs ++ t) = some (r, rest ++ t) := by
      rw [ImageReference.read_append ht, h, Option.map_some]
    rw [segments_of_read hread, ih, List.cons_append]
  | case3 c cs h ih =>
    have hread : ImageReference.read (c :: (cs ++ t)) = none := by
      rw [← List.cons_append, ImageReference.read_append ht, h, Option.map_none]
    rw [List.cons_append, segments_of_read_eq_none hread, ih, List.cons_append]

/-- Text behind all references stays as it is and attaches nothing. -/
theorem embed_append (ht : ')' ∉ t) (images : ImageMap) (s : List Char) :
    embed images (String.ofList (s ++ t)) =
      (String.ofList ((embed images (String.ofList s)).1.toList ++ t),
        (embed images (String.ofList s)).2) := by
  have htargets : targets (segments (s ++ t)) = targets (segments s) := by
    rw [segments_append ht, targets_append, targets_map_plain, List.append_nil]
  have hplain (name : String → String) :
      (t.map Segment.plain).flatMap (Segment.renamed images name) = t := by
    rw [List.flatMap_map]
    exact List.flatMap_singleton' t
  simp only [embed_eq, String.toList_ofList, Naming.ofSegments, htargets]
  rw [segments_append ht, List.flatMap_append, hplain]

end

/-- Embedding makes no text blank, and none that is blank visible. -/
theorem all_isBlank_embed (images : ImageMap) (markdown : String) :
    (embed images markdown).1.toList.all Text.isBlank = markdown.toList.all Text.isBlank := by
  have hseg (name : String → String) (seg : Segment) :
      (seg.renamed images name).all Text.isBlank = seg.source.all Text.isBlank := by
    cases seg with
    | plain c => rfl
    | image r =>
      -- both texts start with an exclamation mark
      have hmark (s : List Char) : ('!' :: s).all Text.isBlank = false := rfl
      simp only [Segment.renamed, Segment.source]
      split
      · exact (hmark _).trans (hmark _).symm
      · rfl
  rw [embed_eq, String.toList_ofList, List.all_flatMap]
  conv => rhs; rw [← flatMap_source_segments markdown.toList, List.all_flatMap]
  simp only [hseg]

end Attachment

namespace Cell

theorem sourceText_ofMarkdown (text : String) (attachments : Option Attachments) :
    (ofMarkdown text attachments).sourceText =
      String.ofList (Text.trimNewlines text.toList) :=
  join_splitSource _

theorem ofMarkdown_append_newlines {t : List Char} (h : ∀ c ∈ t, (c == '\n') = true)
    (s : List Char) (attachments : Option Attachments) :
    ofMarkdown (String.ofList (s ++ t)) attachments = ofMarkdown (String.ofList s) attachments := by
  simp only [ofMarkdown, String.toList_ofList, Text.trimNewlines, Text.dropEndWhile_append h]

theorem isBlank_ofMarkdown (text : String) (attachments : Option Attachments) :
    (ofMarkdown text attachments).isBlank = text.toList.all Text.isBlank := by
  obtain ⟨t, htext, ht⟩ := Text.exists_eq_dropEndWhile_append (· == '\n') text.toList
  have hblank : t.all Text.isBlank = true := by
    refine List.all_eq_true.mpr fun c hc => ?_
    rw [beq_iff_eq.mp (ht c hc)]
    decide
  have hlines : (ofMarkdown text attachments).isBlank =
      (Text.trimNewlines text.toList).all Text.isBlank := by
    conv => rhs; rw [← Text.flatten_fullLines (Text.trimNewlines text.toList)]
    simp [isBlank, isCode, source, ofMarkdown, splitSource, List.all_map, Function.comp_def]
  rw [hlines]
  conv => rhs; rw [htext, List.all_append, hblank, Bool.and_true]
  rfl

/-- The cell with its known images embedded; a code cell stays as it is. -/
def embed (images : ImageMap) (cell : Cell) : Cell :=
  if cell.isCode then cell
  else .ofMarkdown (Attachment.embed images cell.sourceText).1
    (Attachment.embed images cell.sourceText).2

end Cell

namespace Notebook

theorem markdownCell_reference (text : String) :
    markdownCell .reference text =
      .ofMarkdown (String.ofList (stripBlockBreaks text.toList)) none := rfl

/-- Images are embedded before newlines at the end are dropped, but could be afterwards. -/
theorem markdownCell_attachment (images : ImageMap) (text : String) :
    markdownCell (.attachment images) text = (markdownCell .reference text).embed images := by
  generalize hs : stripBlockBreaks text.toList = s
  obtain ⟨t, htext, ht⟩ := Text.exists_eq_dropEndWhile_append (· == '\n') s
  rw [← Text.trimNewlines] at htext
  have hclosing : ')' ∉ t := fun hmem => by simpa using ht ')' hmem
  have hembed := Attachment.embed_append hclosing images (Text.trimNewlines s)
  rw [← htext] at hembed
  rw [markdownCell_reference, hs, Cell.embed, if_neg (by simp [Cell.ofMarkdown, Cell.isCode]),
    Cell.sourceText_ofMarkdown, String.toList_ofList]
  simp only [markdownCell, hs]
  rw [hembed, Cell.ofMarkdown_append_newlines ht, String.ofList_toList]

theorem isBlank_markdownCell (images : ImageMap) (text : String) :
    (markdownCell (.attachment images) text).isBlank = (markdownCell .reference text).isBlank := by
  rw [markdownCell_reference, Cell.isBlank_ofMarkdown]
  simp only [markdownCell, Cell.isBlank_ofMarkdown, Attachment.all_isBlank_embed]

theorem proseCells_attachment (images : ImageMap) (ns : List Node) :
    proseCells (.attachment images) ns = (proseCells .reference ns).map (Cell.embed images) := by
  simp only [proseCells, isBlank_markdownCell]
  split
  · rfl
  · rw [markdownCell_attachment, List.map_singleton]

theorem unitCells_attachment (options : NotebookOptions) (images : ImageMap) (unit : Node) :
    unitCells { options with images := .attachment images } unit =
      (unitCells { options with images := .reference } unit).map (Cell.embed images) := by
  by_cases hcode : unit.isCodeCell = true
  · simp only [unitCells, ofUnit, hcode, if_true, codeCells, List.map_singleton]
    rfl
  · simp only [unitCells, ofUnit, hcode, Bool.false_eq_true, if_false]
    exact proseCells_attachment images _

/-- A notebook with attachments is the one with references with the known images of each cell
embedded, and a cell is blank in both or in neither. -/
theorem ofDocument_attachment (options : NotebookOptions) (images : ImageMap)
    (frontmatter : Option Frontmatter) (ns : List Node) :
    (∀ text, (markdownCell (.attachment images) text).isBlank =
      (markdownCell .reference text).isBlank) ∧
    ofDocument { options with images := .attachment images } frontmatter ns =
      ({ (ofDocument { options with images := .reference } frontmatter ns).1 with
          cells := (ofDocument { options with images := .reference } frontmatter ns).1.cells.map
            (Cell.embed images) },
        (ofDocument { options with images := .reference } frontmatter ns).2) := by
  refine ⟨isBlank_markdownCell images, ?_⟩
  have hcells : unitCells { options with images := .attachment images } =
      fun unit => (unitCells { options with images := .reference } unit).map (Cell.embed images) :=
    funext (unitCells_attachment options images)
  rw [ofDocument_eq, ofDocument_eq, hcells]
  simp only [ofCells, List.map_flatMap]
  rfl

end Notebook
end MystNotebook
