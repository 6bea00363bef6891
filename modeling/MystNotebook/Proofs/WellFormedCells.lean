import MystNotebook.Proofs.AttachedCells
import MystNotebook.Proofs.BlockBreaks
import MystNotebook.Proofs.ReachableCode

/-! Every cell of a notebook is well formed: it is cut into lines behind its newlines, a Markdown
cell starts with what is left behind the block breaks and has no newline at its end, and what is
attached to it is referred to in its text. -/
namespace MystNotebook

/-- A text that stripping leaves as it is. -/
structure StartsProse (s : List Char) : Prop where
  noLineBreak : ∀ c ∈ s.head?, isLineBreak c = false
  noBlockBreak : ¬ "+++".toList <+: s

namespace StartsProse

theorem of_isPrefix {s t : List Char} (h : StartsProse s) (hfront : t <+: s) : StartsProse t := by
  constructor
  · intro c hc
    apply h.noLineBreak c
    obtain ⟨rest, rfl⟩ := hfront
    rw [List.head?_append, hc]
    rfl
  · intro hbreak
    exact h.noBlockBreak (hbreak.trans hfront)

theorem strip (s : List Char) : StartsProse (stripBlockBreaks s) := by
  fun_induction stripBlockBreaks s with
  | case1 => exact ⟨by simp, by decide⟩
  | case2 c rest hc ih => exact ih
  | case3 line hc ih => exact ih
  | case4 c rest hc hmark =>
    refine ⟨by simpa using hc, ?_⟩
    rintro ⟨tail, htail⟩
    obtain ⟨rfl, hrest⟩ := List.cons_eq_cons.mp htail
    exact hmark tail rfl hrest.symm

end StartsProse

namespace Attachment

/-- Redirected references still start with an exclamation mark. -/
theorem prefix_of_prefix_renamed {images : ImageMap} {name : String → String} {w : List Char}
    (hmark : '!' ∉ w) {segs : List Segment}
    (h : w <+: segs.flatMap (Segment.renamed images name)) :
    w <+: segs.flatMap Segment.source := by
  induction segs generalizing w with
  | nil => exact h
  | cons seg segs ih =>
    rw [List.flatMap_cons] at h ⊢
    cases seg with
    | plain c =>
      cases w with
      | nil => exact List.nil_prefix
      | cons c' w =>
        rw [List.mem_cons, not_or] at hmark
        obtain ⟨rfl, hrest⟩ := List.cons_prefix_cons.mp h
        exact List.cons_prefix_cons.mpr ⟨rfl, ih hmark.2 hrest⟩
    | image r =>
      have hstart : ∃ t, Segment.renamed images name (.image r) = '!' :: t := by
        rw [Segment.renamed]
        split
        · exact ⟨_, rfl⟩
        · exact ⟨_, rfl⟩
      obtain ⟨t, ht⟩ := hstart
      cases w with
      | nil => exact List.nil_prefix
      | cons c w =>
        rw [ht] at h
        obtain ⟨rfl, -⟩ := List.cons_prefix_cons.mp h
        exact absurd List.mem_cons_self hmark

theorem prefix_of_prefix_embed {images : ImageMap} {markdown : String} {w : List Char}
    (hmark : '!' ∉ w) (h : w <+: (embed images markdown).1.toList) : w <+: markdown.toList := by
  rw [embed_eq, String.toList_ofList] at h
  have hsource := prefix_of_prefix_renamed hmark h
  rwa [flatMap_source_segments] at hsource

theorem startsProse_embed (images : ImageMap) {markdown : String}
    (h : StartsProse markdown.toList) : StartsProse (embed images markdown).1.toList := by
  constructor
  · intro c hc
    by_cases hmark : c = '!'
    · rw [hmark]
      rfl
    · have hfront : [c] <+: (embed images markdown).1.toList := by
        obtain ⟨rest, hrest⟩ := List.head?_eq_some_iff.mp hc
        exact ⟨rest, hrest.symm⟩
      obtain ⟨rest, hrest⟩ := prefix_of_prefix_embed (by simpa using Ne.symm hmark) hfront
      apply h.noLineBreak c
      rw [← hrest]
      rfl
  · intro hbreak
    exact h.noBlockBreak (prefix_of_prefix_embed (by decide) hbreak)

/-- A scheme has nothing to escape. -/
theorem schemedDestination_attachment (url : List Char) :
    Markdown.schemedDestination "attachment:".toList url =
      Markdown.destination ("attachment:".toList ++ url) := by
  have hneeds : Markdown.needsAngles ("attachment:".toList ++ url) = Markdown.needsAngles url :=
    List.any_append
  have hangles : Markdown.escapeAngles ("attachment:".toList ++ url) =
      "attachment:".toList ++ Markdown.escapeAngles url := by
    simp only [Markdown.escapeAngles, Text.replace, List.flatMap_append]
    rfl
  have hparentheses : Markdown.escapeParentheses ("attachment:".toList ++ url) =
      "attachment:".toList ++ Markdown.escapeParentheses url := by
    simp only [Markdown.escapeParentheses, Text.replace, List.flatMap_append]
    rfl
  rw [Markdown.destination, Markdown.schemedDestination, Markdown.schemedDestination, hneeds,
    hangles, hparentheses]
  rfl

/-- A reference to an attachment is an image with the attachment's url as its destination. -/
theorem attachmentReference_eq (alt : List Char) (name : String) :
    attachmentReference alt name =
      ['!', '['] ++ alt ++ Markdown.linkEnd ("attachment:" ++ name).toList none := by
  rw [attachmentReference, schemedDestination_attachment, Markdown.linkEnd, Markdown.titleText,
    String.toList_append]
  simp

/-- What is attached is there, under different names, and is referred to by each of them. -/
theorem attachments_embed {images : ImageMap} {markdown : String} {attachments : Attachments}
    (h : (embed images markdown).2 = some attachments) :
    attachments.entries ≠ [] ∧ attachments.names.Nodup ∧
      ∀ name ∈ attachments.names, ∃ alt, Escaped inAlt alt ∧
        attachmentReference alt name <:+: (embed images markdown).1.toList := by
  obtain ⟨segs, rename, hscan, hnaming, htext, -⟩ := embed_renames images markdown
  rw [h] at hnaming
  have hentries := hnaming.entries
  rw [Option.getD_some] at hentries
  refine ⟨?_, hnaming.distinct, ?_⟩
  · intro hempty
    rw [hempty, eq_comm, List.map_eq_nil_iff, knownUrls_eq_nil_iff] at hentries
    have hnone := hnaming.none_iff.mpr hentries
    cases hnone
  · intro name hname
    rw [Attachments.names, hentries, List.map_map] at hname
    obtain ⟨url, hurl, rfl⟩ := List.mem_map.mp hname
    obtain ⟨htarget, hknown⟩ := mem_knownUrls.mp hurl
    obtain ⟨seg, hseg, hsegurl⟩ := List.mem_filterMap.mp htarget
    cases seg with
    | plain c => cases hsegurl
    | image r =>
      obtain rfl : r.target = url := Option.some.inj hsegurl
      refine ⟨r.alt, (hscan.valid hseg).alt, ?_⟩
      have hinfix := Text.infix_flatMap_of_mem (f := Segment.renamed images rename) hseg
      rw [Segment.renamed, if_pos hknown] at hinfix
      rw [htext, String.toList_ofList]
      exact hinfix

end Attachment

namespace Cell

/-- A Markdown cell has something to see, starts with neither a line break nor a block break, ends
in no newline and is cut behind each newline; each of its attachments, if there are any, has a name
of its own, to which an image in the cell refers. -/
structure WellFormedMarkdown (source : List String) (attachments : Option Attachments) : Prop where
  visible : ∃ c ∈ (String.join source).toList, Text.isBlank c = false
  start : StartsProse (String.join source).toList
  lines : ∃ front last, source = front ++ [last] ∧
    (∀ line ∈ front, Text.IsEndedLine line.toList) ∧ last ≠ "" ∧ '\n' ∉ last.toList
  attached : ∀ a ∈ attachments, a.entries ≠ []
  distinct : ∀ a ∈ attachments, a.names.Nodup
  referenced : ∀ a ∈ attachments, ∀ name ∈ a.names, ∃ alt,
    Attachment.Escaped Attachment.inAlt alt ∧
      ['!', '['] ++ alt ++ Markdown.linkEnd ("attachment:" ++ name).toList none <:+:
        (String.join source).toList

/-- The lines of a code cell make up one of the given texts, and there are no newlines in them
except at their ends. -/
structure WellFormedCode (source texts : List String) : Prop where
  literal : String.join source ∈ texts
  lines : ∀ line ∈ source, Text.IsEndedLine line.toList ∨ '\n' ∉ line.toList

/-- Cells of a document with the given code. -/
def WellFormed (texts : List String) : Cell → Prop
  | .markdown source attachments => WellFormedMarkdown source attachments
  | .code source => WellFormedCode source texts

theorem wellFormed_ofCode {text : String} {texts : List String} (h : text ∈ texts) :
    (ofCode text).WellFormed texts := by
  have hjoin : String.join (splitSource text.toList) = text := by
    rw [join_splitSource, String.ofList_toList]
  refine ⟨hjoin.symm ▸ h, fun line hline => ?_⟩
  obtain ⟨chars, hchars, rfl⟩ := List.mem_map.mp hline
  rw [String.toList_ofList]
  exact Text.line_of_mem_fullLines hchars

theorem exists_visible {cell : Cell} (hprose : cell.isCode = false) (h : cell.isBlank = false) :
    ∃ c ∈ cell.sourceText.toList, Text.isBlank c = false := by
  rw [isBlank, hprose, Bool.not_false, Bool.true_and, List.all_eq_false] at h
  obtain ⟨line, hline, hblank⟩ := h
  obtain ⟨c, hc, hvisible⟩ := List.all_eq_false.mp (Bool.not_eq_true _ ▸ hblank)
  refine ⟨c, ?_, by simpa using hvisible⟩
  rw [sourceText, String.toList_join]
  exact List.mem_flatMap.mpr ⟨line, hline, hc⟩

/-- A text without a newline at its end is cut into ended lines and one more. -/
theorem exists_splitSource_concat {x : Char} (hx : x ≠ '\n') (s : List Char) :
    ∃ front last, splitSource (s ++ [x]) = front ++ [last] ∧
      (∀ line ∈ front, Text.IsEndedLine line.toList) ∧ last ≠ "" ∧ '\n' ∉ last.toList := by
  obtain ⟨front, last, hlines, hfront, hlast, hnewline⟩ := Text.exists_fullLines_concat hx s
  refine ⟨front.map String.ofList, String.ofList last, ?_, ?_, ?_, ?_⟩
  · rw [splitSource, hlines, List.map_append]
    rfl
  · intro line hline
    obtain ⟨chars, hchars, rfl⟩ := List.mem_map.mp hline
    rw [String.toList_ofList]
    exact hfront chars hchars
  · intro hempty
    apply hlast
    rw [← String.toList_ofList (l := last), hempty]
    rfl
  · rwa [String.toList_ofList]

/-- A reference ends in a parenthesis, so it is still there when the newlines at the end are not. -/
theorem attachmentReference_infix_trimNewlines {alt s : List Char} {name : String}
    (h : Attachment.attachmentReference alt name <:+: s) :
    Attachment.attachmentReference alt name <:+: Text.trimNewlines s := by
  rw [Attachment.attachmentReference] at h ⊢
  exact Text.concat_infix_dropEndWhile (by decide) h

theorem wellFormed_ofMarkdown {text : String} {attachments : Option Attachments}
    (hvisible : (ofMarkdown text attachments).isBlank = false) (hstart : StartsProse text.toList)
    (hattached : ∀ a ∈ attachments, a.entries ≠ [] ∧ a.names.Nodup ∧
      ∀ name ∈ a.names, ∃ alt, Attachment.Escaped Attachment.inAlt alt ∧
        Attachment.attachmentReference alt name <:+: text.toList) :
    WellFormedMarkdown (ofMarkdown text attachments).source attachments := by
  have htext : (String.join (ofMarkdown text attachments).source).toList =
      Text.trimNewlines text.toList := by
    rw [← sourceText, sourceText_ofMarkdown, String.toList_ofList]
  constructor
  · exact exists_visible rfl hvisible
  · rw [htext]
    exact hstart.of_isPrefix (Text.dropEndWhile_isPrefix _ _)
  · obtain ⟨c, hc, -⟩ := exists_visible rfl hvisible
    rw [sourceText, htext] at hc
    rcases List.eq_nil_or_concat (Text.trimNewlines text.toList) with hnil | ⟨s, x, hconcat⟩
    · rw [hnil] at hc
      cases hc
    · rw [List.concat_eq_append] at hconcat
      have hx : x ≠ '\n' := by simpa using Text.not_of_dropEndWhile_eq hconcat
      show ∃ front last, splitSource (Text.trimNewlines text.toList) = front ++ [last] ∧ _
      rw [hconcat]
      exact exists_splitSource_concat hx s
  · exact fun a ha => (hattached a ha).1
  · exact fun a ha => (hattached a ha).2.1
  · intro a ha name hname
    obtain ⟨alt, halt, hinfix⟩ := (hattached a ha).2.2 name hname
    refine ⟨alt, halt, ?_⟩
    rw [htext, ← Attachment.attachmentReference_eq]
    exact attachmentReference_infix_trimNewlines hinfix

end Cell

namespace Notebook
open CodeCell

theorem wellFormed_markdownCell {images : Images} {text : String}
    (h : (markdownCell images text).isBlank = false) (texts : List String) :
    (markdownCell images text).WellFormed texts := by
  have hstart : StartsProse (String.ofList (stripBlockBreaks text.toList)).toList := by
    rw [String.toList_ofList]
    exact StartsProse.strip text.toList
  cases images with
  | reference => exact Cell.wellFormed_ofMarkdown h hstart (by simp)
  | attachment images =>
    have hembedded := Attachment.startsProse_embed images hstart
    exact Cell.wellFormed_ofMarkdown h hembedded fun a ha => Attachment.attachments_embed ha

/-- Every cell of a notebook is well formed, and a code cell holds the code that can be reached in
the document. -/
theorem wellFormed_ofDocument (options : NotebookOptions) (frontmatter : Option Frontmatter)
    (ns : List Node) : ∀ cell ∈ (ofDocument options frontmatter ns).1.cells,
      cell.WellFormed ((ns.flatMap (reachableCells options.dropsSolutions)).map literalCode) := by
  intro cell hcell
  rw [ofDocument_eq] at hcell
  obtain ⟨unit, hunit, hcell⟩ := List.mem_flatMap.mp hcell
  rw [unitCells, ofUnit] at hcell
  split at hcell
  next hcode =>
    rw [codeCells, List.mem_singleton, codeOf_eq_literalCode] at hcell
    rw [hcell, ← filter_isCodeCell_lift]
    exact Cell.wellFormed_ofCode (List.mem_map_of_mem (List.mem_filter.mpr ⟨hunit, hcode⟩))
  next =>
    simp only [proseCells] at hcell
    split at hcell
    next => cases hcell
    next hvisible =>
      rw [List.mem_singleton.mp hcell]
      rw [Bool.not_eq_true] at hvisible
      exact wellFormed_markdownCell hvisible _

/-- A paragraph that is an image. -/
def picture : Node := .paragraph [.leaf (.image { url := "x.png" })]

/-- A code cell of two lines. -/
def listing : Node :=
  .parent (.block (some Node.codeCellKind) none {}) [.leaf (.code { value := "1\n2" })]

/-- The picture is attached to its cell, and the code is cut into its lines. -/
theorem wellFormed_ofDocument_picture :
    let images : ImageMap := [("x.png", ⟨"image/png", "iVBORw=="⟩)]
    let options : NotebookOptions := { images := .attachment images }
    let attachments : Attachments := ⟨[("x.png", [("image/png", "iVBORw==")])]⟩
    let shown : Cell := .markdown ["![](attachment:x.png)"] (some attachments)
    let run : Cell := .code ["1\n", "2"]
    (ofDocument options none [picture, listing]).1.cells = [shown, run] ∧
      shown.WellFormed ["1\n2"] ∧ run.WellFormed ["1\n2"] := by
  intro images options attachments shown run
  have htext : Markdown.write true (prepared options picture) = "![](x.png)\n" := by decide
  have hstripped : stripBlockBreaks "![](x.png)\n".toList = "![](x.png)\n".toList :=
    stripBlockBreaks_eq_self (by decide) (by decide)
  have hread : Attachment.ImageReference.read "![](x.png)\n".toList =
      some (⟨[], false, "x.png".toList, []⟩, ['\n']) := rfl
  have hsegments : Attachment.segments "![](x.png)\n".toList =
      [.image ⟨[], false, "x.png".toList, []⟩, .plain '\n'] := by
    rw [Attachment.segments_of_read hread, Attachment.segments_of_read_eq_none rfl,
      Attachment.segments]
  have hembed : Attachment.embed images "![](x.png)\n" =
      ("![](attachment:x.png)\n", some attachments) := by
    rw [Attachment.embed, hsegments]
    decide
  have hcell : markdownCell (.attachment images) "![](x.png)\n" = shown := by
    rw [markdownCell, hstripped, String.ofList_toList, hembed]
    decide
  have hpicture : unitCells options picture = [shown] := by
    rw [unitCells, ofUnit, if_neg (by decide)]
    show proseCells (.attachment images) (prepared options picture) = [shown]
    rw [proseCells, htext, hcell]
    decide
  have hlisting : unitCells options listing = [run] := by
    rw [unitCells, ofUnit, if_pos (by decide)]
    decide
  have hlift : lift options.dropsSolutions [picture, listing] = [picture, listing] := by decide
  have hcells : (ofDocument options none [picture, listing]).1.cells = [shown, run] := by
    rw [ofDocument_eq, hlift, List.flatMap_cons, List.flatMap_singleton, hpicture, hlisting]
    rfl
  have hcode : ([picture, listing].flatMap (reachableCells options.dropsSolutions)).map
      literalCode = ["1\n2"] := by decide
  have hwellFormed (cell : Cell) (hcell : cell ∈ [shown, run]) : cell.WellFormed ["1\n2"] := by
    rw [← hcells] at hcell
    rw [← hcode]
    exact wellFormed_ofDocument options none [picture, listing] cell hcell
  exact ⟨hcells, hwellFormed shown (by simp), hwellFormed run (by simp)⟩

end Notebook
end MystNotebook
