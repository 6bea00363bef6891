import MystNotebook.Proofs.FirstOccurrences
import MystNotebook.Proofs.FreeNames
import MystNotebook.Proofs.ReferenceGrammar

/-! Embedding as a renaming. The scan carries the names given so far, and a url that has one keeps
it; so the text is rewritten by one function from urls to names, which tells known urls apart. -/
namespace MystNotebook.Attachment

/-- The url that a segment refers to. -/
def Segment.target? : Segment → Option String
  | .plain _ => none
  | .image r => some r.target

/-- The urls of the references, in order. -/
def targets (segs : List Segment) : List String := segs.filterMap Segment.target?

theorem targets_append (segs segs' : List Segment) :
    targets (segs ++ segs') = targets segs ++ targets segs' :=
  List.filterMap_append

theorem targets_map_plain (text : List Char) : targets (text.map .plain) = [] := by
  simp [targets, Segment.target?]

/-- The urls of known images, each where it occurs first. -/
def knownUrls (images : ImageMap) (urls : List String) : List String :=
  (urls.filter fun url => (images.lookup url).isSome).eraseDups

/-- The segment, with the reference to a known image turned into one to its attachment. -/
def Segment.renamed (images : ImageMap) (name : String → String) : Segment → List Char
  | .plain c => [c]
  | .image r =>
    if (images.lookup r.target).isSome then attachmentReference r.alt (name r.target)
    else r.source

/-- What is attached for a url. -/
def bundleOf (images : ImageMap) (url : String) : MimeBundle :=
  match images.lookup url with
  | some image => [(image.mime, image.data)]
  | none => []

theorem bundleOf_of_lookup {images : ImageMap} {url : String} {image : ImageData}
    (h : images.lookup url = some image) : bundleOf images url = [(image.mime, image.data)] := by
  simp only [bundleOf, h]

/-- A function that names the known ones among the urls, and the attachments under these names. -/
structure IsNaming (images : ImageMap) (urls : List String) (name : String → String)
    (attachments : Option Attachments) : Prop where
  injective : ∀ u ∈ knownUrls images urls, ∀ v ∈ knownUrls images urls, name u = name v → u = v
  fileName : ∀ u ∈ knownUrls images urls, IsFileName (name u)
  entries : (attachments.getD .empty).entries =
    (knownUrls images urls).map fun u => (name u, bundleOf images u)
  distinct : (attachments.getD .empty).names.Nodup
  none_iff : attachments = none ↔ ∀ u ∈ urls, images.lookup u = none

namespace Naming

/-- The name that a url has been given. -/
def nameOf (n : Naming) (url : String) : String := (n.names.lookup url).getD ""

/-- The naming once a url has been met. -/
def meet (images : ImageMap) (n : Naming) (url : String) : Naming :=
  match images.lookup url with
  | some image => (n.name url image).2
  | none => n

def after (images : ImageMap) (n : Naming) (urls : List String) : Naming :=
  urls.foldl (meet images) n

/-- The attachments are those of the names, and no two urls share a name. -/
structure Consistent (images : ImageMap) (n : Naming) : Prop where
  entries : n.attachments.entries = (n.names.map fun e => (e.2, bundleOf images e.1)).reverse
  urls : (n.names.map Prod.fst).Nodup
  names : (n.names.map Prod.snd).Nodup
  fileName : ∀ e ∈ n.names, IsFileName e.2

variable {images : ImageMap} {n : Naming}

theorem lookup_eq_none_iff {url : String} :
    n.names.lookup url = none ↔ url ∉ n.names.map Prod.fst := by
  rw [← Option.not_isSome_iff_eq_none, List.lookup_isSome_iff]
  simp

theorem name_of_some {url name : String} (h : n.names.lookup url = some name)
    (image : ImageData) : n.name url image = (name, n) := by
  simp only [Naming.name, h]

theorem name_of_none {url : String} (h : n.names.lookup url = none) (image : ImageData) :
    n.name url image =
      (freeName (baseName url) n.attachments,
        { attachments := n.attachments.insert (freeName (baseName url) n.attachments)
            [(image.mime, image.data)]
          names := (url, freeName (baseName url) n.attachments) :: n.names }) := by
  simp only [Naming.name, h]

/-- A url has the name that it was given when it was met. -/
theorem nameOf_name (n : Naming) (url : String) (image : ImageData) :
    (n.name url image).2.names.lookup url = some (n.name url image).1 := by
  cases h : n.names.lookup url with
  | some name => rw [name_of_some h, h]
  | none => rw [name_of_none h, List.lookup_cons_self]

theorem lookup_meet {url name : String} (h : n.names.lookup url = some name) (other : String) :
    (n.meet images other).names.lookup url = some name := by
  unfold meet
  split
  next image _ =>
    cases hother : n.names.lookup other with
    | some _ => rwa [name_of_some hother]
    | none =>
      have hne : url ≠ other := by
        rintro rfl
        rw [h] at hother
        cases hother
      rw [name_of_none hother, List.lookup_cons, beq_false_of_ne hne, h]
  next => exact h

/-- Names stay. -/
theorem lookup_after {url name : String} (h : n.names.lookup url = some name)
    (urls : List String) : (n.after images urls).names.lookup url = some name := by
  induction urls generalizing n with
  | nil => exact h
  | cons u urls ih => exact ih (lookup_meet h u)

/-- The rewritten text is that of the names at the end, though each is chosen on the way. -/
theorem redirect_eq (images : ImageMap) (n : Naming) (segs : List Segment) :
    redirect images n segs =
      (segs.flatMap (Segment.renamed images (n.after images (targets segs)).nameOf),
        n.after images (targets segs)) := by
  induction segs generalizing n with
  | nil => rfl
  | cons seg segs ih =>
    cases seg with
    | plain c =>
      have htargets : targets (.plain c :: segs) = targets segs := rfl
      rw [htargets, List.flatMap_cons, redirect]
      simp only [ih, Segment.renamed, List.singleton_append]
    | image r =>
      have htargets : targets (.image r :: segs) = r.target :: targets segs := rfl
      rw [htargets, List.flatMap_cons, redirect]
      cases himage : images.lookup r.target with
      | some image =>
        have hmeet : n.after images (r.target :: targets segs) =
            (n.name r.target image).2.after images (targets segs) := by
          simp [after, meet, himage]
        have hname : ((n.name r.target image).2.after images (targets segs)).names.lookup r.target =
            some (n.name r.target image).1 :=
          lookup_after (nameOf_name n r.target image) (targets segs)
        simp only [ih, hmeet, Segment.renamed, himage, Option.isSome_some, if_true, nameOf, hname,
          Option.getD_some]
      | none =>
        have hmeet : n.after images (r.target :: targets segs) =
            n.after images (targets segs) := by
          simp [after, meet, himage]
        simp [ih, hmeet, Segment.renamed, himage]

/-! Each step keeps the naming consistent and adds the url if it is known and new. -/

theorem consistent_empty (images : ImageMap) : Consistent images {} :=
  ⟨rfl, .nil, .nil, by simp⟩

theorem Consistent.names_attachments (h : n.Consistent images) :
    n.attachments.names = (n.names.map Prod.snd).reverse := by
  simp [Attachments.names, h.entries, Function.comp_def]

theorem Consistent.name (h : n.Consistent images) {url : String} {image : ImageData}
    (himage : images.lookup url = some image) : (n.name url image).2.Consistent images := by
  cases hurl : n.names.lookup url with
  | some name => rwa [name_of_some hurl]
  | none =>
    have hfree : freeName (baseName url) n.attachments ∉ n.attachments.names := by
      rw [← Attachments.contains_iff, (freeName_cases (baseName url) n.attachments).1]
      exact Bool.false_ne_true
    rw [name_of_none hurl]
    constructor
    · simp only [Attachments.insert]
      rw [Attachments.put_of_not_mem hfree, h.entries, List.map_cons, List.reverse_cons,
        bundleOf_of_lookup himage]
    · exact List.nodup_cons.mpr ⟨lookup_eq_none_iff.mp hurl, h.urls⟩
    · rw [h.names_attachments, List.mem_reverse] at hfree
      exact List.nodup_cons.mpr ⟨hfree, h.names⟩
    · exact List.forall_mem_cons.mpr ⟨isFileName_freeName (isFileName_baseName url) _, h.fileName⟩

theorem Consistent.meet (h : n.Consistent images) (url : String) :
    (n.meet images url).Consistent images := by
  unfold Naming.meet
  split
  next himage => exact h.name himage
  next => exact h

theorem Consistent.after (h : n.Consistent images) (urls : List String) :
    (n.after images urls).Consistent images := by
  induction urls generalizing n with
  | nil => exact h
  | cons url urls ih => exact ih (h.meet url)

theorem eraseDups_append_cons_of_mem {u : String} {us : List String} (h : u ∈ us)
    (vs : List String) : (us ++ u :: vs).eraseDups = (us ++ vs).eraseDups := by
  simp [List.eraseDups_append, List.removeAll, h]

theorem eraseDups_of_nodup {us : List String} (h : us.Nodup) : us.eraseDups = us := by
  induction us with
  | nil => rfl
  | cons u us ih =>
    obtain ⟨hu, hus⟩ := List.nodup_cons.mp h
    have hfilter : (us.filter fun v => !v == u) = us :=
      List.filter_eq_self.mpr fun v hv => by
        have : v ≠ u := fun he => hu (he ▸ hv)
        simpa using this
    rw [List.eraseDups_cons, hfilter, ih hus]

/-- Each url is named where it is met first. -/
theorem eraseDups_urls_after (images : ImageMap) (n : Naming) (urls : List String) :
    ((n.after images urls).names.map Prod.fst).reverse.eraseDups =
      ((n.names.map Prod.fst).reverse ++
        urls.filter fun url => (images.lookup url).isSome).eraseDups := by
  induction urls generalizing n with
  | nil => simp [Naming.after]
  | cons url urls ih =>
    have hstep := ih (n.meet images url)
    rw [Naming.after, List.foldl_cons, ← Naming.after, hstep]
    unfold Naming.meet
    split
    next image himage =>
      rw [List.filter_cons_of_pos (by simp [himage])]
      cases hurl : n.names.lookup url with
      | some name =>
        have hmem : url ∈ (n.names.map Prod.fst).reverse := by
          by_contra hnot
          rw [List.mem_reverse, ← lookup_eq_none_iff, hurl] at hnot
          cases hnot
        rw [name_of_some hurl, eraseDups_append_cons_of_mem hmem]
      | none => simp [name_of_none hurl]
    next himage => rw [List.filter_cons_of_neg (by simp [himage])]

/-- The urls that have a name at the end of a text, in order. -/
theorem urls_after (images : ImageMap) (urls : List String) :
    (((({} : Naming).after images urls).names.map Prod.fst).reverse) = knownUrls images urls := by
  have hnodup := ((consistent_empty images).after urls).urls
  rw [← List.nodup_reverse] at hnodup
  rw [← eraseDups_of_nodup hnodup, eraseDups_urls_after]
  simp [knownUrls]

end Naming

theorem mem_knownUrls {images : ImageMap} {urls : List String} {u : String} :
    u ∈ knownUrls images urls ↔ u ∈ urls ∧ (images.lookup u).isSome = true := by
  rw [knownUrls, List.mem_eraseDups, List.mem_filter]

theorem knownUrls_eq_nil_iff {images : ImageMap} {urls : List String} :
    knownUrls images urls = [] ↔ ∀ u ∈ urls, images.lookup u = none := by
  simp only [List.eq_nil_iff_forall_not_mem, mem_knownUrls, not_and, Option.not_isSome_iff_eq_none]

theorem Naming.Consistent.nameOf {images : ImageMap} {n : Naming} (h : n.Consistent images)
    {e : String × String} (he : e ∈ n.names) : n.nameOf e.1 = e.2 := by
  rw [Naming.nameOf, lookup_of_mem h.urls he, Option.getD_some]

/-- The attachments of a cell, none where there are no names. -/
def Naming.result (n : Naming) : Option Attachments :=
  if n.attachments.isEmpty then none else some n.attachments

theorem Naming.getD_result (n : Naming) : n.result.getD .empty = n.attachments := by
  unfold result
  split
  next h =>
    obtain ⟨⟨entries⟩, _⟩ := n
    obtain rfl : entries = [] := List.isEmpty_iff.mp h
    rfl
  next => rfl

theorem isNaming_after (images : ImageMap) (urls : List String) :
    IsNaming images urls (({} : Naming).after images urls).nameOf
      (({} : Naming).after images urls).result := by
  have hkeys := Naming.urls_after images urls
  have hn := (Naming.consistent_empty images).after urls
  generalize ({} : Naming).after images urls = n at hkeys hn
  have hmem {u : String} (hu : u ∈ knownUrls images urls) : ∃ e ∈ n.names, e.1 = u := by
    rw [← hkeys, List.mem_reverse] at hu
    exact List.mem_map.mp hu
  have hentries : n.attachments.entries =
      (knownUrls images urls).map fun u => (n.nameOf u, bundleOf images u) := by
    rw [hn.entries, ← hkeys, List.map_reverse, List.map_map]
    congr 1
    refine List.map_congr_left fun e he => ?_
    rw [Function.comp_apply, hn.nameOf he]
  constructor
  · intro u hu v hv huv
    obtain ⟨e, he, rfl⟩ := hmem hu
    obtain ⟨e', he', rfl⟩ := hmem hv
    rw [hn.nameOf he, hn.nameOf he'] at huv
    rw [List.inj_on_of_nodup_map hn.names he he' huv]
  · intro u hu
    obtain ⟨e, he, rfl⟩ := hmem hu
    rw [hn.nameOf he]
    exact hn.fileName e he
  · rw [Naming.getD_result, hentries]
  · rw [Naming.getD_result, hn.names_attachments]
    exact List.nodup_reverse.mpr hn.names
  · rw [← knownUrls_eq_nil_iff, ← List.map_eq_nil_iff, ← hentries, ← List.isEmpty_iff]
    unfold Naming.result
    split
    next h => simpa [Attachments.isEmpty] using h
    next h => simpa [Attachments.isEmpty] using h

theorem Segment.renamed_of_unknown {images : ImageMap} {seg : Segment}
    (h : ∀ url, seg.target? = some url → images.lookup url = none) (name : String → String) :
    seg.renamed images name = seg.source := by
  cases seg with
  | plain c => rfl
  | image r => rw [Segment.renamed, h r.target rfl, if_neg (by simp)]; rfl

/-- The naming at the end of a text. -/
def Naming.ofSegments (images : ImageMap) (segs : List Segment) : Naming :=
  ({} : Naming).after images (targets segs)

/-- The text is the one that the names at its end give, also where it has no known image. -/
theorem embed_eq (images : ImageMap) (markdown : String) :
    embed images markdown =
      (String.ofList ((segments markdown.toList).flatMap
          (Segment.renamed images (Naming.ofSegments images (segments markdown.toList)).nameOf)),
        (Naming.ofSegments images (segments markdown.toList)).result) := by
  have hnaming := isNaming_after images (targets (segments markdown.toList))
  rw [embed, Naming.redirect_eq, ← Naming.ofSegments]
  rw [← Naming.ofSegments] at hnaming
  generalize Naming.ofSegments images (segments markdown.toList) = n at hnaming ⊢
  simp only []
  cases hempty : n.attachments.isEmpty with
  | true =>
    have hresult : n.result = none := by rw [Naming.result, if_pos hempty]
    have hunknown := hnaming.none_iff.mp hresult
    have htext : (segments markdown.toList).flatMap (Segment.renamed images n.nameOf) =
        markdown.toList := by
      rw [List.flatMap_congr fun seg hseg => Segment.renamed_of_unknown (fun url hurl =>
        hunknown url (List.mem_filterMap.mpr ⟨seg, hseg, hurl⟩)) n.nameOf]
      exact flatMap_source_segments markdown.toList
    rw [htext, String.ofList_toList, hresult, if_pos rfl]
  | false => simp [Naming.result, hempty]

/-- Embedding renames the urls of known images, whose references the scan of the text finds, by one
function that tells them apart; where there are none the text stays as it is. -/
theorem embed_renames (images : ImageMap) (markdown : String) :
    ∃ (segs : List Segment) (name : String → String),
      Scan markdown.toList segs ∧
      IsNaming images (targets segs) name (embed images markdown).2 ∧
      (embed images markdown).1 = String.ofList (segs.flatMap (Segment.renamed images name)) ∧
      ((embed images markdown).2 = none → (embed images markdown).1 = markdown) := by
  refine ⟨segments markdown.toList, (Naming.ofSegments images (segments markdown.toList)).nameOf,
    scan_segments markdown.toList, ?_, ?_, ?_⟩
  · rw [embed_eq]
    exact isNaming_after images _
  · rw [embed_eq]
  · unfold embed
    simp only []
    split <;> simp

end MystNotebook.Attachment
