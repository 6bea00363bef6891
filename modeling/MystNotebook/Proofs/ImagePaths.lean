import MystNotebook.Project.Export
import MystNotebook.Proofs.PathNames
import MystNotebook.Proofs.TextParts

/-! The files that the urls of images mean. A url takes its path from the root of the sources or
from the directory of the document. What is joined to these is never absolute, so that no url
replaces them. -/
namespace MystNotebook

namespace Path

/-- The path is the base or leads on from it. -/
def StartsWith (p base : Path) : Prop := base.components <+: p.components

theorem startsWith_join {p : Path} (hp : p.isAbsolute = false) (base : Path) :
    (base.join p).StartsWith base := by
  by_cases hbase : base.text = ""
  · obtain ⟨text⟩ := base
    obtain rfl : text = "" := hbase
    exact List.nil_prefix
  · rw [StartsWith, components_join hbase hp]
    exact List.prefix_append _ _

end Path

namespace Text

/-- What is left of a text starts with its first character that is not blank. -/
theorem head?_trim (s : List Char) : (trim s).head? = s.find? (! isBlank ·) := by
  rw [List.find?_not_eq_head?_dropWhile, trim, trimStart]
  cases h : s.dropWhile isBlank with
  | nil => rfl
  | cons c rest =>
    have hc : isBlank c = false := by
      have hhead := List.head?_dropWhile_not isBlank s
      simpa [h] using hhead
    rw [trimEnd, ← List.nil_append (c :: rest), dropEndWhile_append_cons hc]
    rfl

/-- The search for a character stops where the text is cut, if it does not stop before. -/
theorem find?_takeWhile {p q : Char → Bool} (h : ∀ c, p c = false → q c = true) (s : List Char) :
    (s.takeWhile q).find? p = (s.find? p).filter q := by
  induction s with
  | nil => rfl
  | cons c s ih =>
    cases hp : p c with
    | false => rw [List.takeWhile_cons_of_pos (h c hp), List.find?_cons, List.find?_cons, hp, ih]
    | true => cases hq : q c <;> simp [hp, hq, Option.filter]

end Text

namespace Project
open Text Attachment

/-- The url starts with a slash, blanks before it aside. -/
def IsRooted (url : String) : Prop := (trim url.toList).head? = some '/'

instance (url : String) : Decidable (IsRooted url) := inferInstanceAs (Decidable (_ = _))

/-- What the path of a url is joined to. -/
def imageBase (url : String) (document sourceRoot : Path) : Path :=
  if IsRooted url then sourceRoot else pageDirectory document

/-- What is joined: the url without query, fragment, blanks around it and slashes at its start. -/
def relativeUrl (url : String) : List Char := (trim (urlPath url.toList)).dropWhile (· == '/')

/-- A query or a fragment does not hide a slash at the start. -/
theorem isRooted_iff {url : String} :
    IsRooted url ↔ (trim (urlPath url.toList)).head? = some '/' := by
  have hblank : ∀ c, (! isBlank c) = false → (c ≠ '?' && c ≠ '#') = true := by
    intro c hc
    rw [Bool.and_eq_true, decide_eq_true_eq, decide_eq_true_eq]
    constructor <;> rintro rfl <;> exact absurd hc (by decide)
  rw [IsRooted, head?_trim, head?_trim, urlPath, find?_takeWhile hblank, Option.filter_eq_some_iff]
  simp

theorem imagePath_eq (url : String) (document sourceRoot : Path) :
    imagePath url document sourceRoot =
      if relativeUrl url = [] then none
      else some ((imageBase url document sourceRoot).join ⟨String.ofList (relativeUrl url)⟩) := by
  have hpath : (url.toList.takeWhile fun c => c ≠ '?' && c ≠ '#') = urlPath url.toList := rfl
  simp only [imagePath, relativeUrl, imageBase, isRooted_iff, hpath]
  cases trim (urlPath url.toList) with
  | nil => rfl
  | cons c rest =>
    by_cases hc : c = '/'
    · subst hc
      simp
    · simp [hc, pageDirectory]

theorem head?_relativeUrl (url : String) : (relativeUrl url).head? ≠ some '/' := by
  intro h
  have hnot := List.head?_dropWhile_not (· == '/') (trim (urlPath url.toList))
  rw [← relativeUrl, h] at hnot
  simp at hnot

theorem relativeUrl_eq_nil_iff {url : String} :
    relativeUrl url = [] ↔ ∀ c ∈ trim (urlPath url.toList), c = '/' := by
  rw [relativeUrl, List.dropWhile_eq_nil_iff]
  simp

theorem isAbsolute_of_head? {s : List Char} (h : s.head? ≠ some '/') :
    (⟨String.ofList s⟩ : Path).isAbsolute = false := by
  cases s with
  | nil => rfl
  | cons c s =>
    have hc : c ≠ '/' := fun hc => h (by rw [hc]; rfl)
    simp [Path.isAbsolute, hc]

theorem urlPath_append_cons {c : Char} (hc : c = '?' ∨ c = '#') (s t : List Char) :
    urlPath (s ++ c :: t) = urlPath s := by
  induction s with
  | nil => rcases hc with rfl | rfl <;> rfl
  | cons d s ih =>
    simp only [urlPath, List.cons_append, List.takeWhile_cons] at ih ⊢
    rw [ih]

/-- A url leads nowhere if nothing but slashes is left of it. Else what it means is its base with a
path that is not absolute: the root of the sources for a url that starts with a slash, wherever the
document is, and the directory of the document for any other, wherever the sources are. A query or
a fragment changes nothing. -/
theorem imagePath_startsWith_base (url : String) (document sourceRoot : Path) :
    let base := if IsRooted url then sourceRoot else pageDirectory document
    (imagePath url document sourceRoot = none ↔ ∀ c ∈ trim (urlPath url.toList), c = '/') ∧
      (∀ p, imagePath url document sourceRoot = some p → ∃ rel : String, rel ≠ "" ∧
        rel.toList.head? ≠ some '/' ∧ p = base.join ⟨rel⟩ ∧ p.StartsWith base) ∧
      (IsRooted url → ∀ document',
        imagePath url document' sourceRoot = imagePath url document sourceRoot) ∧
      (¬ IsRooted url → ∀ sourceRoot',
        imagePath url document sourceRoot' = imagePath url document sourceRoot) ∧
      ∀ s c t, url.toList = s ++ c :: t → c = '?' ∨ c = '#' →
        imagePath url document sourceRoot = imagePath (String.ofList s) document sourceRoot := by
  intro base
  have hbase : imageBase url document sourceRoot = base := rfl
  refine ⟨?_, fun p hp => ?_, fun hrooted document' => ?_, fun hrooted sourceRoot' => ?_,
    fun s c t hurl hc => ?_⟩
  · rw [imagePath_eq, ← relativeUrl_eq_nil_iff]
    simp
  · rw [imagePath_eq, hbase] at hp
    split at hp
    · cases hp
    · next hne =>
      obtain rfl := Option.some.inj hp
      refine ⟨String.ofList (relativeUrl url), by simpa using hne, ?_, rfl, ?_⟩
      · rw [String.toList_ofList]
        exact head?_relativeUrl url
      · exact Path.startsWith_join (isAbsolute_of_head? (head?_relativeUrl url)) base
  · have hsame : imageBase url document' sourceRoot = imageBase url document sourceRoot := by
      rw [imageBase, imageBase, if_pos hrooted, if_pos hrooted]
    rw [imagePath_eq, imagePath_eq, hsame]
  · have hsame : imageBase url document sourceRoot' = imageBase url document sourceRoot := by
      rw [imageBase, imageBase, if_neg hrooted, if_neg hrooted]
    rw [imagePath_eq, imagePath_eq, hsame]
  · have hpath : urlPath url.toList = urlPath (String.ofList s).toList := by
      rw [hurl, urlPath_append_cons hc, String.toList_ofList]
    have hrel : relativeUrl url = relativeUrl (String.ofList s) := by
      rw [relativeUrl, relativeUrl, hpath]
    have hsame : imageBase url document sourceRoot =
        imageBase (String.ofList s) document sourceRoot := by
      simp only [imageBase, isRooted_iff, hpath]
    rw [imagePath_eq, imagePath_eq, hrel, hsame]

example : imagePath " //etc/hosts?/a" ⟨"docs/page.json"⟩ ⟨"book"⟩ = some ⟨"book/etc/hosts"⟩ := by
  decide

end Project
end MystNotebook
