import MystNotebook.Proofs.ConsistentNaming
import MystNotebook.Proofs.PhrasingText

/-! Written images as references. Without backslashes in its texts an image is written as one
reference, which means the url of the image; so in a paragraph of images and text the references are
the images, and embedding changes nothing else. -/
namespace MystNotebook
open Text Markdown Attachment

/-! Escaping by a backslash, and taking the backslash off again. -/

namespace Markdown

/-- Every marked character behind a backslash. -/
def escapeMarked (marked : Char → Bool) (s : List Char) : List Char :=
  s.flatMap fun c => if marked c then ['\\', c] else [c]

theorem replace_eq_escapeMarked (a : Char) (s : List Char) :
    replace a ['\\', a] s = escapeMarked (· == a) s := by
  refine List.flatMap_congr fun c _ => ?_
  by_cases h : c = a <;> simp [h]

theorem replace_replace {a b : Char} (hab : a ≠ b) (hb : b ≠ '\\') (s : List Char) :
    replace b ['\\', b] (replace a ['\\', a] s) = escapeMarked (fun c => c == a || c == b) s := by
  rw [replace, replace, List.flatMap_assoc]
  refine List.flatMap_congr fun c _ => ?_
  by_cases ha : c = a
  · simp [ha, hab, Ne.symm hb]
  · by_cases hc : c = b <;> simp [ha, hc, Ne.symm hab]

theorem escapeBrackets_eq (s : List Char) :
    escapeBrackets s = escapeMarked (fun c => c == '[' || c == ']') s :=
  replace_replace (by decide) (by decide) s

theorem escapeAngles_eq (s : List Char) :
    escapeAngles s = escapeMarked (fun c => c == '<' || c == '>') s :=
  replace_replace (by decide) (by decide) s

theorem escapeParentheses_eq (s : List Char) :
    escapeParentheses s = escapeMarked (fun c => c == '(' || c == ')') s :=
  replace_replace (by decide) (by decide) s

theorem escaped_escapeMarked {marked plain : Char → Bool} (hnewline : marked '\n' = false)
    {s : List Char} (hbackslash : '\\' ∉ s)
    (hplain : ∀ c ∈ s, marked c = false → plain c = true) :
    Escaped plain (escapeMarked marked s) := by
  induction s with
  | nil => exact .nil
  | cons c s ih =>
    rw [List.mem_cons, not_or] at hbackslash
    rw [List.forall_mem_cons] at hplain
    have hs := ih hbackslash.2 hplain.2
    rw [escapeMarked, List.flatMap_cons, ← escapeMarked]
    cases hc : marked c with
    | true =>
      refine .escape ?_ hs
      rintro rfl
      rw [hnewline] at hc
      cases hc
    | false => exact .plain (Ne.symm hbackslash.1) (hplain.1 hc) hs

theorem escapeMarked_ne_nil {s : List Char} (h : s ≠ []) (marked : Char → Bool) :
    escapeMarked marked s ≠ [] := by
  obtain ⟨c, s, rfl⟩ := List.exists_cons_of_ne_nil h
  rw [escapeMarked, List.flatMap_cons]
  split <;> simp

/-- A character that is not in the text, nor a backslash, does not come to stand at its start. -/
theorem head_escapeMarked {d : Char} (hd : d ≠ '\\') {s : List Char} (hs : s ≠ []) (h : d ∉ s)
    (marked : Char → Bool) (rest t : List Char) : escapeMarked marked s ++ rest ≠ d :: t := by
  obtain ⟨c, s, rfl⟩ := List.exists_cons_of_ne_nil hs
  rw [List.mem_cons, not_or] at h
  rw [escapeMarked, List.flatMap_cons]
  split <;> simp [Ne.symm hd, Ne.symm h.1]

end Markdown

namespace Attachment

theorem unescapeUrl_plain {c : Char} (h : c ≠ '\\') (s : List Char) :
    unescapeUrl (c :: s) = c :: unescapeUrl s := by
  cases s with
  | nil => rfl
  | cons d s => simp [unescapeUrl, h]

theorem unescapeUrl_escapeMarked {marked : Char → Bool}
    (hmarked : ∀ c, marked c = true → c ∈ ['(', ')', '[', ']', '<', '>']) {s : List Char}
    (h : '\\' ∉ s) : unescapeUrl (escapeMarked marked s) = s := by
  induction s with
  | nil => rfl
  | cons c s ih =>
    rw [List.mem_cons, not_or] at h
    rw [escapeMarked, List.flatMap_cons, ← escapeMarked]
    cases hc : marked c with
    | true =>
      simp only [if_true, List.cons_append, List.nil_append, unescapeUrl, hmarked c hc, and_self,
        ih h.2]
    | false =>
      simp only [Bool.false_eq_true, if_false, List.singleton_append,
        unescapeUrl_plain (Ne.symm h.1), ih h.2]

end Attachment

/-! One image. -/

/-- An image of whose texts none needs a backslash of its own, with a url on one line. -/
structure Image.Writable (i : Image) : Prop where
  url_ne : i.url.toList ≠ []
  url : '\\' ∉ i.url.toList ∧ '\n' ∉ i.url.toList
  alt : '\\' ∉ (i.alt.getD "").toList
  title : ∀ title ∈ i.title, '\\' ∉ title.toList

/-- The reference as which an image is written. -/
def Image.reference (i : Image) : ImageReference where
  alt := escapeBrackets (i.alt.getD "").toList
  angled := needsAngles i.url.toList
  url := if needsAngles i.url.toList then escapeAngles i.url.toList
    else escapeParentheses i.url.toList
  title := titleText i.title

theorem Image.source_reference (i : Image) : i.reference.source = imageText i := by
  cases h : needsAngles i.url.toList <;>
    simp [reference, ImageReference.source, imageText, linkEnd, destination, schemedDestination, h]

namespace Image.Writable
variable {i : Image}

theorem isTitle_titleText (h : i.Writable) : IsTitle (titleText i.title) := by
  cases ht : i.title with
  | none => exact .inl rfl
  | some title =>
    refine .inr ⟨[' '], replace '"' ['\\', '"'] title.toList, by simp,
      List.forall_mem_singleton.mpr (by decide), ?_, rfl⟩
    rw [replace_eq_escapeMarked]
    refine escaped_escapeMarked (by decide) (h.title title (by simp [ht])) fun c _ hc => ?_
    simpa [inTitle] using hc

theorem valid (h : i.Writable) : i.reference.Valid := by
  constructor
  · rw [reference, escapeBrackets_eq]
    refine escaped_escapeMarked (by decide) h.alt fun c _ hc => ?_
    simp only [Bool.or_eq_false_iff, beq_eq_false_iff_ne] at hc
    simpa [inAlt] using hc.2
  · cases hangles : needsAngles i.url.toList with
    | true =>
      simp only [reference, hangles, if_true, escapeAngles_eq]
      refine escaped_escapeMarked (by decide) h.url.1 fun c hmem hc => ?_
      have hnewline : c ≠ '\n' := fun he => h.url.2 (he ▸ hmem)
      simp only [Bool.or_eq_false_iff, beq_eq_false_iff_ne] at hc
      simp [inAngles, hc, hnewline]
    | false =>
      simp only [reference, hangles, Bool.false_eq_true, if_false, escapeParentheses_eq]
      refine ⟨escapeMarked_ne_nil h.url_ne _, ?_⟩
      refine escaped_escapeMarked (by decide) h.url.1 fun c hmem hc => ?_
      have hplain := List.any_eq_false.mp hangles c hmem
      simp only [Bool.or_eq_false_iff, beq_eq_false_iff_ne] at hc
      simp only [Bool.or_eq_true, not_or, Bool.not_eq_true] at hplain
      simp [inBareUrl, hc, hplain]
  · exact h.isTitle_titleText

theorem target_reference (h : i.Writable) : i.reference.target = i.url := by
  have hurl : unescapeUrl i.reference.url = i.url.toList := by
    simp only [reference]
    split
    · rw [escapeAngles_eq]
      refine unescapeUrl_escapeMarked (fun c hc => ?_) h.url.1
      rcases (by simpa using hc : c = '<' ∨ c = '>') with rfl | rfl <;> decide
    · rw [escapeParentheses_eq]
      refine unescapeUrl_escapeMarked (fun c hc => ?_) h.url.1
      rcases (by simpa using hc : c = '(' ∨ c = ')') with rfl | rfl <;> decide
  rw [ImageReference.target, hurl, String.ofList_toList]

/-- A written image is read as one reference, whatever follows it. -/
theorem read_imageText (h : i.Writable) (rest : List Char) :
    ImageReference.read (imageText i ++ rest) = some (i.reference, rest) := by
  have hstarts : i.reference.Starts (imageText i ++ rest) rest :=
    ⟨h.valid, by rw [i.source_reference]⟩
  cases hangles : needsAngles i.url.toList with
  | true => exact hstarts.read_of_angled hangles
  | false =>
    have hurl : i.reference.url = escapeMarked (fun c => c == '(' || c == ')') i.url.toList := by
      simp [reference, hangles, escapeParentheses_eq]
    have hangle : '<' ∉ i.url.toList := fun hmem => by
      simpa using List.any_eq_false.mp hangles _ hmem
    refine hstarts.read_of_head hangles fun u t => ?_
    rw [hurl]
    exact head_escapeMarked (by decide) h.url_ne hangle _ u t

end Image.Writable

/-! A paragraph. -/

/-- Images that are written as they stand, and text without exclamation marks. -/
inductive Phrase : Node → Prop
  | image {i : Image} : i.Writable → Phrase (.leaf (.image i))
  | text {value : String} : '!' ∉ value.toList → Phrase (.text value)

def Node.imageUrl? : Node → Option String
  | .leaf (.image i) => some i.url
  | _ => none

/-- How an image or a text is written inside a paragraph. -/
def phraseText : Node → List Char
  | .leaf (.image i) => imageText i
  | .leaf (.text value) => value.toList
  | _ => []

def phraseSegments : Node → List Segment
  | .leaf (.image i) => [.image i.reference]
  | .leaf (.text value) => value.toList.map .plain
  | _ => []

/-- The same with a known image as a reference to its attachment, without a title. -/
def embeddedText (images : ImageMap) (name : String → String) : Node → List Char
  | .leaf (.image i) =>
    if (images.lookup i.url).isSome then
      attachmentReference (escapeBrackets (i.alt.getD "").toList) (name i.url)
    else imageText i
  | .leaf (.text value) => value.toList
  | _ => []

namespace Markdown

theorem Draft.page_inline (d : Draft) (s : List Char) :
    (d.inline s).page = s.reverse ++ d.page := by
  unfold Draft.inline
  split
  next h => simp [List.isEmpty_iff.mp h]
  next => rfl

theorem page_writeInlines {ns : List Node} (h : ∀ n ∈ ns, Phrase n) (d : Draft) :
    (writeInlines ns d).page = (ns.flatMap phraseText).reverse ++ d.page := by
  induction ns generalizing d with
  | nil => rfl
  | cons n ns ih =>
    rw [List.forall_mem_cons] at h
    have hn : (writeNode n d).page = (phraseText n).reverse ++ d.page := by
      cases h.1 with
      | image => simp only [writeNode, Draft.leaf, Draft.page_inline, phraseText]
      | text => simp only [Node.text, writeNode, Draft.leaf, Draft.page_inline, phraseText]
    rw [writeInlines, ih h.2, hn, List.flatMap_cons, List.reverse_append, List.append_assoc]

theorem write_paragraph {ns : List Node} (h : ∀ n ∈ ns, Phrase n) (separators : Bool) :
    write separators [.paragraph ns] = String.ofList (ns.flatMap phraseText ++ ['\n']) := by
  have hpage : (draftOf separators [.paragraph ns]).page =
      (ns.flatMap phraseText ++ ['\n']).reverse := by
    rw [draftOf_paragraph, List.reverse_append]
    simp only [Draft.atLineStart, Draft.push, page_writeInlines h, List.append_nil]
  rw [write, hpage, List.reverse_reverse]

end Markdown

namespace Attachment

theorem segments_plain {c : Char} (h : c ≠ '!') (s : List Char) :
    segments (c :: s) = .plain c :: segments s := by
  refine segments_of_read_eq_none ?_
  unfold ImageReference.read
  split
  next heq => exact absurd (List.cons.inj heq).1 h
  next => rfl

theorem segments_text {text : List Char} (h : '!' ∉ text) (rest : List Char) :
    segments (text ++ rest) = text.map .plain ++ segments rest := by
  induction text with
  | nil => rfl
  | cons c text ih =>
    rw [List.mem_cons, not_or] at h
    rw [List.cons_append, segments_plain (Ne.symm h.1), ih h.2, List.map_cons, List.cons_append]

theorem segments_phrases {ns : List Node} (h : ∀ n ∈ ns, Phrase n) (rest : List Char) :
    segments (ns.flatMap phraseText ++ rest) = ns.flatMap phraseSegments ++ segments rest := by
  induction ns with
  | nil => rfl
  | cons n ns ih =>
    rw [List.forall_mem_cons] at h
    have hn (tail : List Char) :
        segments (phraseText n ++ tail) = phraseSegments n ++ segments tail := by
      cases h.1 with
      | image hi => exact segments_of_read (hi.read_imageText tail)
      | text hvalue => exact segments_text hvalue tail
    rw [List.flatMap_cons, List.flatMap_cons, List.append_assoc, hn, ih h.2, List.append_assoc]

/-- The references of a written paragraph are its images. -/
theorem segments_write {ns : List Node} (h : ∀ n ∈ ns, Phrase n) (separators : Bool) :
    segments (write separators [.paragraph ns]).toList =
      ns.flatMap phraseSegments ++ [.plain '\n'] := by
  rw [write_paragraph h, String.toList_ofList, segments_phrases h, segments_plain (by decide),
    segments]

theorem targets_phrases {ns : List Node} (h : ∀ n ∈ ns, Phrase n) :
    targets (ns.flatMap phraseSegments) = ns.filterMap Node.imageUrl? := by
  induction ns with
  | nil => rfl
  | cons n ns ih =>
    rw [List.forall_mem_cons] at h
    rw [List.flatMap_cons, targets_append, ih h.2]
    cases h.1 with
    | @image i hi =>
      have hn : targets (phraseSegments (.leaf (.image i))) = [i.url] := by
        simp [phraseSegments, targets, Segment.target?, hi.target_reference]
      rw [hn, List.filterMap_cons, Node.imageUrl?, List.singleton_append]
    | @text value _ =>
      have hn : targets (phraseSegments (.text value)) = [] := targets_map_plain value.toList
      rw [hn, List.nil_append]
      rfl

theorem renamed_phrases (images : ImageMap) (name : String → String) {ns : List Node}
    (h : ∀ n ∈ ns, Phrase n) :
    (ns.flatMap phraseSegments).flatMap (Segment.renamed images name) =
      ns.flatMap (embeddedText images name) := by
  rw [List.flatMap_assoc]
  refine List.flatMap_congr fun n hn => ?_
  cases h n hn with
  | @image i hi =>
    rw [phraseSegments, List.flatMap_singleton, Segment.renamed, hi.target_reference,
      i.source_reference, embeddedText, Image.reference]
  | @text value _ =>
    simp only [Node.text, phraseSegments, embeddedText, List.flatMap_map, Segment.renamed,
      List.flatMap_singleton']

/-- The references of a written paragraph are its images in order, and embedding turns those of
known images into references to their attachments and changes nothing else. -/
theorem embed_paragraph (separators : Bool) (images : ImageMap) {ns : List Node}
    (h : ∀ n ∈ ns, Phrase n) :
    write separators [.paragraph ns] = String.ofList (ns.flatMap phraseText ++ ['\n']) ∧
      targets (segments (write separators [.paragraph ns]).toList) =
        ns.filterMap Node.imageUrl? ∧
      ∃ name : String → String,
        IsNaming images (ns.filterMap Node.imageUrl?) name
          (embed images (write separators [.paragraph ns])).2 ∧
        (embed images (write separators [.paragraph ns])).1 =
          String.ofList (ns.flatMap (embeddedText images name) ++ ['\n']) := by
  have htargets : targets (segments (write separators [.paragraph ns]).toList) =
      ns.filterMap Node.imageUrl? := by
    rw [segments_write h, targets_append, targets_phrases h]
    exact List.append_nil _
  refine ⟨write_paragraph h separators, htargets,
    (Naming.ofSegments images (segments (write separators [.paragraph ns]).toList)).nameOf, ?_, ?_⟩
  · rw [embed_eq, Naming.ofSegments, htargets]
    exact isNaming_after images _
  · rw [embed_eq, segments_write h, List.flatMap_append, renamed_phrases _ _ h]
    rfl

/-- Two images side by side, with every character that the syntax uses itself. -/
def awkwardPhrases : List Node :=
  [.leaf (.image { url := "<a> (b) [c].png", alt := some "]( [x]", title := some "\"(y)\" <" }),
    .leaf (.image { url := "(b)[c]", alt := none, title := some ")" }),
    .text "](z)"]

/-- The image of the first of them. -/
def awkwardImages : ImageMap := [("<a> (b) [c].png", { mime := "image/png", data := "AQ==" })]

theorem embed_awkwardPhrases :
    (∀ n ∈ awkwardPhrases, Phrase n) ∧
      targets (segments (write true [.paragraph awkwardPhrases]).toList) =
        ["<a> (b) [c].png", "(b)[c]"] ∧
      (embed awkwardImages (write true [.paragraph awkwardPhrases])).1 =
        "![\\]( \\[x\\]](<attachment:\\<a\\> (b) [c].png>)![](\\(b\\)[c] \")\")](z)\n" := by
  have h : ∀ n ∈ awkwardPhrases, Phrase n := by
    simp only [awkwardPhrases, List.forall_mem_cons, List.not_mem_nil, false_implies, implies_true,
      and_true]
    exact ⟨.image ⟨by decide, by decide, by decide, by simp⟩,
      .image ⟨by decide, by decide, by decide, by simp⟩, .text (by decide)⟩
  obtain ⟨-, htargets, name, hnaming, htext⟩ := embed_paragraph true awkwardImages h
  refine ⟨h, htargets, ?_⟩
  -- the attachment of the first image shows which name it has been given
  have hname : name "<a> (b) [c].png" = "<a> (b) [c].png" := by
    have hentries := hnaming.entries
    rw [embed_eq, Naming.ofSegments, htargets] at hentries
    have hentry : [("<a> (b) [c].png", [("image/png", "AQ==")])] =
        [(name "<a> (b) [c].png", [("image/png", "AQ==")])] := hentries
    exact (Prod.mk.inj (List.singleton_inj.mp hentry)).1.symm
  have hembedded : ∀ n ∈ awkwardPhrases,
      embeddedText awkwardImages name n = embeddedText awkwardImages id n := by
    simp only [awkwardPhrases, List.forall_mem_cons, List.not_mem_nil, false_implies, implies_true,
      and_true]
    refine ⟨?_, rfl, rfl⟩
    rw [embeddedText, embeddedText, hname, id]
  rw [htext, List.flatMap_congr hembedded, ← String.toList_inj, String.toList_ofList]
  decide

end Attachment
end MystNotebook
