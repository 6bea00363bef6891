import Mathlib.Data.List.Permutation
import MystNotebook.Proofs.AttachedCells
import MystNotebook.Proofs.UnmodelledPhrasing
import MystNotebook.Proofs.WrittenImages

/-! Image references that a code sample quotes. Embedding reads the text of a cell, which does not
tell an image from a sample of Markdown about one; so it leaves a notebook alone exactly if nothing
that reads like a reference in it means a known image. -/
namespace MystNotebook
open Text Markdown Attachment

namespace Attachment

theorem embed_eq_self_iff {images : ImageMap} {markdown : String} :
    embed images markdown = (markdown, none) ↔
      ∀ url ∈ targets (segments markdown.toList), images.lookup url = none := by
  have hnaming := isNaming_after images (targets (segments markdown.toList))
  rw [← Naming.ofSegments] at hnaming
  have hresult : (embed images markdown).2 =
      (Naming.ofSegments images (segments markdown.toList)).result := by rw [embed_eq]
  rw [← hnaming.none_iff, ← hresult]
  constructor
  · intro h
    rw [h]
  · intro h
    unfold embed at h ⊢
    simp only [] at h ⊢
    split at h
    next hempty => rw [if_pos hempty]
    next => cases h

theorem targets_segments_text {text : List Char} (h : '!' ∉ text) (rest : List Char) :
    targets (segments (text ++ rest)) = targets (segments rest) := by
  rw [segments_text h, targets_append, targets_map_plain, List.nil_append]

theorem targets_segments_append {t : List Char} (h : ')' ∉ t) (s : List Char) :
    targets (segments (s ++ t)) = targets (segments s) := by
  rw [segments_append h, targets_append, targets_map_plain, List.append_nil]

end Attachment

namespace Cell

theorem embed_ofMarkdown_eq_self_iff {images : ImageMap} {s : List Char} :
    (ofMarkdown (String.ofList s) none).embed images = ofMarkdown (String.ofList s) none ↔
      ∀ url ∈ targets (segments s), images.lookup url = none := by
  obtain ⟨t, htext, ht⟩ := Text.exists_eq_dropEndWhile_append (· == '\n') s
  rw [← Text.trimNewlines] at htext
  have hclosing : ')' ∉ t := fun hmem => by simpa using ht ')' hmem
  have htargets : targets (segments s) = targets (segments (Text.trimNewlines s)) := by
    conv => lhs; rw [htext, targets_segments_append hclosing]
  have htrimmed : ofMarkdown (String.ofList (Text.trimNewlines s)) none =
      ofMarkdown (String.ofList s) none := by
    conv => rhs; rw [htext, ofMarkdown_append_newlines ht]
  have hself := @embed_eq_self_iff images (String.ofList (Text.trimNewlines s))
  rw [String.toList_ofList] at hself
  rw [htargets, ← hself, embed, if_neg (by simp [ofMarkdown, isCode]), sourceText_ofMarkdown,
    String.toList_ofList]
  constructor
  · intro h
    -- the attachments are those of the cell, so there are none
    have hnone : (Attachment.embed images (String.ofList (Text.trimNewlines s))).2 = none :=
      congrArg attachments h
    rw [hself, ← (isNaming_after images _).none_iff, ← Naming.ofSegments]
    rwa [embed_eq, String.toList_ofList] at hnone
  · intro h
    rw [h, htrimmed]

end Cell

namespace Notebook

theorem proseCells_attachment_eq_iff {images : ImageMap} {ns : List Node} :
    proseCells (.attachment images) ns = proseCells .reference ns ↔
      ∀ url ∈ targets (segments (stripBlockBreaks (write true ns).toList)),
        images.lookup url = none := by
  rw [proseCells_attachment, proseCells]
  simp only [markdownCell_reference, Cell.isBlank_ofMarkdown, String.toList_ofList]
  generalize stripBlockBreaks (write true ns).toList = s
  split
  next hblank =>
    have hmark : '!' ∉ s := by
      intro hmem
      exact absurd (List.all_eq_true.mp hblank '!' hmem) (by decide)
    have htargets := targets_segments_text hmark []
    rw [List.append_nil] at htargets
    rw [htargets]
    simp [segments, targets]
  next =>
    rw [List.map_singleton, List.singleton_inj]
    exact Cell.embed_ofMarkdown_eq_self_iff

/-- The urls of what reads like an image in the text of a unit. -/
def readUrls (options : NotebookOptions) (unit : Node) : List String :=
  targets (segments (stripBlockBreaks (write true (prepared options unit)).toList))

/-- A notebook is the same with attachments exactly if no text in it reads like a known image. -/
theorem ofDocument_attachment_eq_iff (options : NotebookOptions) (images : ImageMap)
    (frontmatter : Option Frontmatter) (ns : List Node) :
    ofDocument { options with images := .attachment images } frontmatter ns =
        ofDocument { options with images := .reference } frontmatter ns ↔
      ∀ unit ∈ CodeCell.lift options.dropsSolutions ns, unit.isCodeCell = false →
        ∀ url ∈ readUrls options unit, images.lookup url = none := by
  have hmap (cells : List Cell) :
      cells.map (Cell.embed images) = cells ↔ ∀ cell ∈ cells, cell.embed images = cell := by
    conv => lhs; rhs; rw [← List.map_id cells]
    exact List.map_inj_left
  have hunit (unit : Node) :
      (∀ cell ∈ unitCells { options with images := .reference } unit, cell.embed images = cell) ↔
        (unit.isCodeCell = false → ∀ url ∈ readUrls options unit, images.lookup url = none) := by
    rw [← hmap, ← unitCells_attachment]
    cases hcode : unit.isCodeCell with
    | true => simp [unitCells, ofUnit, hcode]
    | false =>
      simp only [unitCells, ofUnit, hcode, Bool.false_eq_true, if_false, true_implies]
      exact proseCells_attachment_eq_iff
  have hcells : unitCells { options with images := .attachment images } =
      fun unit => (unitCells { options with images := .reference } unit).map (Cell.embed images) :=
    funext (unitCells_attachment options images)
  have hreference : ofDocument { options with images := .reference } frontmatter ns =
      (ofCells ((CodeCell.lift options.dropsSolutions ns).flatMap
          (unitCells { options with images := .reference })) frontmatter,
        (CodeCell.lift options.dropsSolutions ns).flatMap (unitDiagnostics options)) :=
    ofDocument_eq _ frontmatter ns
  have hattachment : ofDocument { options with images := .attachment images } frontmatter ns =
      (ofCells (((CodeCell.lift options.dropsSolutions ns).flatMap
          (unitCells { options with images := .reference })).map (Cell.embed images)) frontmatter,
        (CodeCell.lift options.dropsSolutions ns).flatMap (unitDiagnostics options)) := by
    rw [ofDocument_eq, hcells, ← List.map_flatMap]
    rfl
  rw [hattachment, hreference]
  constructor
  · intro h unit hmem
    rw [← hunit]
    have hself := (hmap _).mp (congrArg (fun result => result.1.cells) h)
    exact fun cell hcell => hself cell (List.mem_flatMap.mpr ⟨unit, hmem, hcell⟩)
  · intro h
    rw [(hmap _).mpr]
    exact List.forall_mem_flatMap.mpr fun unit hmem => (hunit unit).mpr (h unit hmem)

end Notebook

/-! The text of a sample. Its fences and ticks do not belong to what reads like a reference. -/

namespace Markdown

theorem write_code (separators : Bool) (c : Code) :
    write separators [.leaf (.code c)] = String.ofList (codeText c) := by
  rw [write, draftOf_singleton rfl rfl]
  simp [writeNode, Draft.leaf, Draft.block, Draft.push, Draft.newline, Draft.atLineStart]

theorem write_inlineCode (separators : Bool) (value : String) :
    write separators [.paragraph [.leaf (.inlineCode value)]] =
      String.ofList (codeSpan value.toList ++ ['\n']) := by
  have hinline : ∀ n ∈ [Node.leaf (.inlineCode value)], n.Everywhere (isInline · = true) :=
    List.forall_mem_singleton.mpr (Node.everywhere_leaf.mpr rfl)
  rw [write_phrasing hinline]
  simp [phrasingTextAll, phrasingText]

theorem codeText_of_options {c : Code} (h : codeOptions c = []) :
    codeText c = backtickFence c.value.toList ++ (plainInfo c ++ '\n' ::
      closedLine c.value.toList) ++ (backtickFence c.value.toList ++ ['\n']) := by
  simp [codeText, fencedText, h, optionLines]

theorem targets_codeText {c : Code} (h : codeOptions c = []) :
    targets (segments (codeText c)) =
      targets (segments (plainInfo c ++ '\n' :: c.value.toList)) := by
  have hfence (d : Char) (hd : d ≠ '`') : d ∉ backtickFence c.value.toList := fun hmem =>
    hd (List.eq_of_mem_replicate hmem)
  have hclosing : ')' ∉ backtickFence c.value.toList ++ ['\n'] := by
    simpa using hfence ')' (by decide)
  have hclosed : ∃ t, closedLine c.value.toList = c.value.toList ++ t ∧ ')' ∉ t := by
    unfold closedLine
    split
    · exact ⟨[], (List.append_nil _).symm, List.not_mem_nil⟩
    · exact ⟨['\n'], rfl, by decide⟩
  obtain ⟨t, hvalue, ht⟩ := hclosed
  have hbody : plainInfo c ++ '\n' :: closedLine c.value.toList =
      plainInfo c ++ '\n' :: c.value.toList ++ t := by
    rw [hvalue, List.append_assoc, List.cons_append]
  rw [codeText_of_options h, targets_segments_append hclosing,
    targets_segments_text (hfence '!' (by decide)), hbody, targets_segments_append ht]

theorem targets_codeSpan (value : List Char) :
    targets (segments (codeSpan value ++ ['\n'])) = targets (segments value) := by
  have hspan : ∃ s t, codeSpan value = s ++ value ++ t ∧ '!' ∉ s ∧ ')' ∉ t := by
    unfold codeSpan
    split
    · exact ⟨"`` ".toList, " ``".toList, rfl, by decide, by decide⟩
    · exact ⟨['`'], ['`'], rfl, by decide, by decide⟩
  obtain ⟨s, t, heq, hs, ht⟩ := hspan
  rw [targets_segments_append (by decide), heq, targets_segments_append ht,
    targets_segments_text hs]

end Markdown

theorem stripBlockBreaks_tick (s : List Char) : stripBlockBreaks ('`' :: s) = '`' :: s := by
  rw [stripBlockBreaks.eq_def]
  rfl

namespace Notebook

theorem readUrls_code {c : Code} (h : codeOptions c = []) (options : NotebookOptions) :
    readUrls options (.leaf (.code c)) =
      targets (segments (plainInfo c ++ '\n' :: c.value.toList)) := by
  -- degrading drops attributes that are not written anyway
  have hwrite : write true (prepared options (.leaf (.code c))) = String.ofList (codeText c) := by
    unfold prepared
    split
    · have hplain : CommonMark.degrade options.dropSolutions [.leaf (.code c)] =
          [.leaf (.code { lang := c.lang, metadata := c.metadata, value := c.value })] := rfl
      have hoptions : codeOptions { lang := c.lang, metadata := c.metadata, value := c.value } =
          [] := rfl
      rw [hplain, write_code, codeText_of_options h, codeText_of_options hoptions]
      rfl
    · exact write_code true c
  have htick : ∃ s, codeText c = '`' :: s := by
    have hcount : backtickCount c.value.toList = backtickCount c.value.toList - 1 + 1 := by
      unfold backtickCount
      omega
    rw [codeText_of_options h, backtickFence, hcount, List.replicate_succ]
    exact ⟨_, rfl⟩
  obtain ⟨s, hs⟩ := htick
  rw [readUrls, hwrite, String.toList_ofList, hs, stripBlockBreaks_tick, ← hs, targets_codeText h]

theorem readUrls_inlineCode (options : NotebookOptions) (value : String) :
    readUrls options (.paragraph [.leaf (.inlineCode value)]) =
      targets (segments value.toList) := by
  have hprepared : prepared options (.paragraph [.leaf (.inlineCode value)]) =
      [.paragraph [.leaf (.inlineCode value)]] := by
    unfold prepared
    split <;> rfl
  have htick : ∃ s, codeSpan value.toList = '`' :: s := by
    unfold codeSpan
    split
    · exact ⟨_, rfl⟩
    · exact ⟨_, rfl⟩
  obtain ⟨s, hs⟩ := htick
  rw [readUrls, hprepared, write_inlineCode, String.toList_ofList, hs, List.cons_append,
    stripBlockBreaks_tick, ← List.cons_append, ← hs, targets_codeSpan]

/-- The notebook of a code sample is the same with attachments exactly if nothing in the sample
reads like a known image. -/
theorem ofDocument_codeSample_eq_iff (options : NotebookOptions) (images : ImageMap)
    (frontmatter : Option Frontmatter) {c : Code} (h : codeOptions c = []) (value : String) :
    (ofDocument { options with images := .attachment images } frontmatter [.leaf (.code c)] =
        ofDocument { options with images := .reference } frontmatter [.leaf (.code c)] ↔
      ∀ url ∈ targets (segments (plainInfo c ++ '\n' :: c.value.toList)),
        images.lookup url = none) ∧
    (ofDocument { options with images := .attachment images } frontmatter
          [.paragraph [.leaf (.inlineCode value)]] =
        ofDocument { options with images := .reference } frontmatter
          [.paragraph [.leaf (.inlineCode value)]] ↔
      ∀ url ∈ targets (segments value.toList), images.lookup url = none) := by
  constructor
  · have hlift : CodeCell.lift options.dropsSolutions [.leaf (.code c)] = [.leaf (.code c)] := rfl
    rw [ofDocument_attachment_eq_iff, hlift, List.forall_mem_singleton, readUrls_code h]
    exact forall_prop_of_true rfl
  · have hlift : CodeCell.lift options.dropsSolutions [.paragraph [.leaf (.inlineCode value)]] =
        [.paragraph [.leaf (.inlineCode value)]] := rfl
    rw [ofDocument_attachment_eq_iff, hlift, List.forall_mem_singleton, readUrls_inlineCode]
    exact forall_prop_of_true rfl

/-- A block of Markdown that shows how an image is written. -/
theorem ofDocument_codeSample_plain :
    let sample : Code := { lang := some "md", value := "![a](x.png)" }
    let images : ImageMap := [("y.png", ⟨"image/png", "iVBORw=="⟩)]
    codeOptions sample = [] ∧
      ofDocument { images := .attachment images } none [.leaf (.code sample)] =
        ofDocument { images := .reference } none [.leaf (.code sample)] := by
  intro sample images
  have htargets : targets (segments (plainInfo sample ++ '\n' :: sample.value.toList)) =
      ["x.png"] := by cbv
  refine ⟨rfl, (ofDocument_codeSample_eq_iff {} images none rfl "").1.mpr ?_⟩
  rw [htargets]
  exact List.forall_mem_singleton.mpr (by decide)

/-- An image of the page, quoted in a block or in a span of code, is taken for an image. -/
theorem ofDocument_quotedImage :
    let images : ImageMap := [("x.png", ⟨"image/png", "iVBORw=="⟩)]
    let attachments : Attachments := ⟨[("x.png", [("image/png", "iVBORw==")])]⟩
    let block : Node := .leaf (.code { value := "![a](x.png)" })
    let span : Node := .paragraph [.leaf (.inlineCode "![a](x.png)")]
    (markdownCell (.attachment images) (write true [block]) =
        .markdown ["```\n", "![a](attachment:x.png)\n", "```"] (some attachments) ∧
      ofDocument { images := .attachment images } none [block] ≠
        ofDocument { images := .reference } none [block]) ∧
    (markdownCell (.attachment images) (write true [span]) =
        .markdown ["`![a](attachment:x.png)`"] (some attachments) ∧
      ofDocument { images := .attachment images } none [span] ≠
        ofDocument { images := .reference } none [span]) := by
  intro images attachments block span
  have hcell {text redirected : String} {s : List Char} (htext : text.toList = '`' :: s)
      (hembed : embed images text = (redirected, some attachments)) :
      markdownCell (.attachment images) text = .ofMarkdown redirected (some attachments) := by
    have hstrip : String.ofList (stripBlockBreaks text.toList) = text := by
      rw [htext, stripBlockBreaks_tick, ← htext, String.ofList_toList]
    simp only [markdownCell, hstrip, hembed]
  have hdiffers {unit : Node} (hunit : unit ∈ CodeCell.lift false [unit])
      (hcode : unit.isCodeCell = false) (hurl : "x.png" ∈ readUrls {} unit) :
      ofDocument { images := .attachment images } none [unit] ≠
        ofDocument { images := .reference } none [unit] := by
    intro heq
    have hunknown := (ofDocument_attachment_eq_iff {} images none [unit]).mp heq unit hunit hcode
    exact absurd (hunknown "x.png" hurl) (by decide)
  refine ⟨⟨?_, hdiffers (List.mem_singleton_self _) rfl ?_⟩,
    ⟨?_, hdiffers (List.mem_singleton_self _) rfl ?_⟩⟩
  · have hwrite : write true [block] = "```\n![a](x.png)\n```\n" := by decide
    have hsegments : segments "```\n![a](x.png)\n```\n".toList =
        "```\n".toList.map .plain ++ .image ⟨['a'], false, "x.png".toList, []⟩ ::
          "\n```\n".toList.map .plain := by cbv
    have hembed : embed images "```\n![a](x.png)\n```\n" =
        ("```\n![a](attachment:x.png)\n```\n", some attachments) := by
      rw [embed, hsegments]
      decide
    rw [hwrite, hcell rfl hembed]
    decide
  · have htargets : targets (segments ('\n' :: "![a](x.png)".toList)) = ["x.png"] := by cbv
    rw [readUrls_code rfl]
    exact htargets ▸ List.mem_singleton_self _
  · have hwrite : write true [span] = "`![a](x.png)`\n" := by decide
    have hsegments : segments "`![a](x.png)`\n".toList =
        .plain '`' :: .image ⟨['a'], false, "x.png".toList, []⟩ ::
          "`\n".toList.map .plain := by cbv
    have hembed : embed images "`![a](x.png)`\n" =
        ("`![a](attachment:x.png)`\n", some attachments) := by
      rw [embed, hsegments]
      decide
    rw [hwrite, hcell rfl hembed]
    decide
  · have htargets : targets (segments "![a](x.png)".toList) = ["x.png"] := by cbv
    rw [readUrls_inlineCode]
    exact htargets ▸ List.mem_singleton_self _

end Notebook
end MystNotebook
