import Mathlib.Data.List.Permutation
import MystNotebook.Project.MediaType
import MystNotebook.Proofs.FirstOccurrences
import MystNotebook.Proofs.PageSteps

/-! The images that a document needs. The search visits every node at any depth and keeps a local
url where it stands first. What is read for a url depends on nothing but the url, so that the images
do not depend on the order in which they are read, and one that cannot be read leaves the others. -/
namespace MystNotebook
open Text

/-- The node is one of the nodes or stands below one, whatever the kinds of its parents. -/
inductive Node.Within (n : Node) : List Node → Prop
  | top {ns : List Node} : n ∈ ns → Within n ns
  | deeper {p : Parent} {cs ns : List Node} : .parent p cs ∈ ns → Within n cs → Within n ns

theorem Node.Within.mono {n : Node} {ms ns : List Node} (h : n.Within ms) (hsub : ms ⊆ ns) :
    n.Within ns := by
  cases h with
  | top hn => exact .top (hsub hn)
  | deeper hp hn => exact .deeper (hsub hp) hn

mutual

theorem Node.within_of_mem_preorder {n : Node} : (m : Node) → n ∈ m.preorder → n.Within [m]
  | .leaf l, h => .top h
  | .parent p cs, h => by
    rcases List.mem_cons.mp h with rfl | h
    · exact .top (List.mem_singleton_self _)
    · exact .deeper (List.mem_singleton_self _) (within_of_mem_preorderAll cs h)

theorem Node.within_of_mem_preorderAll {n : Node} : (ns : List Node) → n ∈ preorderAll ns →
    n.Within ns
  | m :: ms, h => by
    rcases List.mem_append.mp h with h | h
    · exact (within_of_mem_preorder m h).mono (by simp)
    · exact (within_of_mem_preorderAll ms h).mono (List.subset_cons_self m ms)

end

/-- The walk over a document misses no node. -/
theorem Node.mem_preorderAll_iff {n : Node} {ns : List Node} :
    n ∈ preorderAll ns ↔ n.Within ns := by
  refine ⟨within_of_mem_preorderAll ns, fun h => ?_⟩
  rw [preorderAll_eq_flatMap, List.mem_flatMap]
  induction h with
  | @top ns hn =>
    refine ⟨n, hn, ?_⟩
    cases n <;> simp [preorder]
  | @deeper p cs ns hp _ ih =>
    refine ⟨.parent p cs, hp, ?_⟩
    rw [preorder, preorderAll_eq_flatMap]
    exact List.mem_cons_of_mem _ (List.mem_flatMap.mpr ih)

/-! Base64 text. -/

namespace Text

def digitValue (c : Char) : Nat := base64Alphabet.idxOf c

/-- The bytes that a base64 text stands for. -/
def bytesOfBase64 : List Char → List UInt8
  | a :: b :: c :: d :: rest =>
    let n := digitValue a * 262144 + digitValue b * 4096 + digitValue c * 64 + digitValue d
    if c = '=' then [UInt8.ofNat (n / 65536)]
    else if d = '=' then [UInt8.ofNat (n / 65536), UInt8.ofNat (n / 256)]
    else UInt8.ofNat (n / 65536) :: UInt8.ofNat (n / 256) :: UInt8.ofNat n :: bytesOfBase64 rest
  | _ => []

theorem digitValue_base64Digit (n : Nat) : digitValue (base64Digit n) = n % 64 := by
  have hdigits : ∀ k < 64, digitValue (base64Alphabet.getD k 'A') = k := by decide +kernel
  exact hdigits _ (Nat.mod_lt n (by decide))

theorem base64Digit_ne_pad (n : Nat) : base64Digit n ≠ '=' := by
  have hdigits : ∀ k < 64, base64Alphabet.getD k 'A' ≠ '=' := by decide +kernel
  exact hdigits _ (Nat.mod_lt n (by decide))

theorem ofNat_eq_of_mod {n : Nat} {b : UInt8} (h : n % 256 = b.toNat) : UInt8.ofNat n = b := by
  apply UInt8.toNat_inj.mp
  rw [UInt8.toNat_ofNat', h]

theorem bytesOfBase64_base64 (bytes : List UInt8) : bytesOfBase64 (base64 bytes) = bytes := by
  have hpad : digitValue '=' = 64 := by decide +kernel
  induction bytes using base64.induct with
  | case1 a b c rest ih =>
    have ha := a.toNat_lt
    have hb := b.toNat_lt
    have hc := c.toNat_lt
    simp only [base64, bytesOfBase64, digitValue_base64Digit, base64Digit_ne_pad, if_false, ih]
    rw [ofNat_eq_of_mod (b := a) (by omega), ofNat_eq_of_mod (b := b) (by omega),
      ofNat_eq_of_mod (b := c) (by omega)]
  | case2 a b =>
    have ha := a.toNat_lt
    have hb := b.toNat_lt
    simp only [base64, bytesOfBase64, digitValue_base64Digit, base64Digit_ne_pad, if_false,
      if_true, hpad]
    rw [ofNat_eq_of_mod (b := a) (by omega), ofNat_eq_of_mod (b := b) (by omega)]
  | case3 a =>
    have ha := a.toNat_lt
    simp only [base64, bytesOfBase64, digitValue_base64Digit, if_true, hpad]
    rw [ofNat_eq_of_mod (b := a) (by omega)]
  | case4 => rfl

end Text

namespace Project

/-! The search for urls. -/

/-- The url of an image, or of a node that is one by its kind. -/
inductive RefersTo (url : String) : Node → Prop
  | image {i : Image} : i.url = url → RefersTo url (.leaf (.image i))
  | other {fields : Json.Fields} {cs : List Node} : fields.get? "url" = some (.string url) →
    RefersTo url (.parent (.other "image" fields) cs)

theorem imageUrl?_eq_some_iff {url : String} {n : Node} :
    imageUrl? n = some url ↔ RefersTo url n := by
  constructor
  · intro h
    unfold imageUrl? at h
    split at h
    next i => exact .image (Option.some.inj h)
    next fields cs =>
      split at h
      next hurl => exact .other (hurl.trans (by rw [Option.some.inj h]))
      next => cases h
    next => cases h
  · intro h
    cases h with
    | image h => exact congrArg some h
    | other h => simp [imageUrl?, h]

/-- Without the blanks around it and in small letters the url is not empty, and it has none of the
schemes of what is elsewhere. -/
def IsLocal (url : String) : Prop :=
  lowerAscii (trim url.toList) ≠ [] ∧
    ∀ scheme ∈ ["http://", "https://", "data:"], ¬ scheme.toList <+: lowerAscii (trim url.toList)

theorem isLocal_iff {url : String} : isLocal url = true ↔ IsLocal url := by
  have hstarts (scheme s : List Char) : startsWith scheme s = false ↔ ¬ scheme <+: s := by
    rw [startsWith, ← Bool.not_eq_true, List.isPrefixOf_iff_prefix]
  simp only [isLocal, IsLocal, List.forall_mem_cons, Bool.not_eq_true', Bool.or_eq_false_iff,
    hstarts, List.isEmpty_eq_false_iff, and_assoc]
  simp

/-- The urls of images as they stand in the document. -/
def occurringUrls (ns : List Node) : List String := (Node.preorderAll ns).filterMap imageUrl?

theorem mem_occurringUrls {url : String} {ns : List Node} :
    url ∈ occurringUrls ns ↔ ∃ n : Node, n.Within ns ∧ RefersTo url n := by
  simp only [occurringUrls, List.mem_filterMap, Node.mem_preorderAll_iff, imageUrl?_eq_some_iff]

/-- The local urls among the given ones, each where it stands first. -/
def firstUrls (occurring : List String) : List String :=
  occurring.foldl
    (fun urls url => if isLocal url && !urls.contains url then urls ++ [url] else urls) []

theorem imageUrls_eq (ns : List Node) : imageUrls ns = firstUrls (occurringUrls ns) := rfl

/-- One more url is kept if it is local and new. -/
theorem keepsFirst_firstUrls : KeepsFirst (isLocal · = true) firstUrls := by
  have hconcat (occurring : List String) (url : String) : firstUrls (occurring ++ [url]) =
      if isLocal url = true ∧ url ∉ firstUrls occurring then firstUrls occurring ++ [url]
      else firstUrls occurring := by
    rw [firstUrls, List.foldl_concat, ← firstUrls]
    simp
  exact ⟨rfl, fun hlocal hnew => by rw [hconcat, if_pos ⟨hlocal, hnew⟩],
    fun hold => by rw [hconcat, if_neg hold]⟩

theorem mem_firstUrls {url : String} {occurring : List String} :
    url ∈ firstUrls occurring ↔ url ∈ occurring ∧ isLocal url = true :=
  keepsFirst_firstUrls.mem_iff

/-- The urls stand in the order of their first occurrences, so that none of them is there twice. -/
theorem pairwise_firstUrls (occurring : List String) :
    (firstUrls occurring).Pairwise fun a b => occurring.idxOf a < occurring.idxOf b :=
  keepsFirst_firstUrls.pairwise occurring

theorem nodup_firstUrls (occurring : List String) : (firstUrls occurring).Nodup :=
  keepsFirst_firstUrls.nodup occurring

/-! What is read. -/

variable {mediaType : Path → String} {d : Disk} {document sourceRoot : Path} {url : String}

theorem imageAt_eq_some_iff {image : ImageData} :
    imageAt mediaType d document sourceRoot url = some image ↔ ∃ p bytes,
      imagePath url document sourceRoot = some p ∧ d.readBytes p = .ok bytes ∧
        image = encodeImage mediaType p bytes := by
  unfold imageAt
  cases imagePath url document sourceRoot with
  | none => simp
  | some p => cases hread : d.readBytes p <;> simp [hread, Except.toOption, eq_comm]

/-- What a map of read images gives for a url depends on the url alone. -/
theorem lookup_imagesIn (urls : List String) :
    (imagesIn mediaType d document sourceRoot urls).lookup url =
      if url ∈ urls then imageAt mediaType d document sourceRoot url else none := by
  rw [imagesIn_eq_filterMap]
  induction urls with
  | nil => rfl
  | cons first urls ih =>
    cases himage : imageAt mediaType d document sourceRoot first with
    | none =>
      rw [List.filterMap_cons_none (by simp [himage]), ih]
      by_cases heq : url = first
      · simp [heq, himage]
      · simp [heq]
    | some image =>
      rw [List.filterMap_cons_some (by rw [himage]; rfl), List.lookup_cons]
      by_cases heq : url = first
      · simp [heq, himage]
      · simp [beq_false_of_ne heq, heq, ih]

theorem map_fst_imagesIn_sublist (urls : List String) :
    ((imagesIn mediaType d document sourceRoot urls).map Prod.fst).Sublist urls := by
  rw [imagesIn_eq_filterMap]
  induction urls with
  | nil => exact .slnil
  | cons first urls ih =>
    cases himage : imageAt mediaType d document sourceRoot first with
    | none =>
      rw [List.filterMap_cons_none (by simp [himage])]
      exact ih.cons first
    | some image =>
      rw [List.filterMap_cons_some (by rw [himage]; rfl), List.map_cons]
      exact ih.cons_cons first

theorem run_collectImages (ns : List Node) :
    ((collectImages mediaType ns document sourceRoot : StateM Disk ImageMap).run d).1 =
      imagesIn mediaType d document sourceRoot (imageUrls ns) := by
  obtain ⟨log, himages⟩ := run_readImages mediaType document sourceRoot (imageUrls ns) d
  exact congrArg Prod.fst himages

/-- The urls that are looked for are the local urls of the images at any depth, in the order in
which they occur first. The map has each of them once that leads to a file, with the bytes of that
file, and reading them in another order gives the same map. -/
theorem collectImages_exact (mediaType : Path → String) (ns : List Node)
    (document sourceRoot : Path) (d : Disk) :
    let images := ((collectImages mediaType ns document sourceRoot : StateM Disk ImageMap).run d).1
    (∀ url, url ∈ imageUrls ns ↔ (∃ n : Node, n.Within ns ∧ RefersTo url n) ∧ IsLocal url) ∧
      ((imageUrls ns).Pairwise fun a b =>
        (occurringUrls ns).idxOf a < (occurringUrls ns).idxOf b) ∧
      (images.map Prod.fst).Nodup ∧
      (∀ url image, images.lookup url = some image ↔ url ∈ imageUrls ns ∧ ∃ p bytes,
        imagePath url document sourceRoot = some p ∧ d.readBytes p = .ok bytes ∧
          image = encodeImage mediaType p bytes ∧ bytesOfBase64 image.data.toList = bytes.toList) ∧
      ∀ urls, urls.Perm (imageUrls ns) → ∀ url,
        ((readImages mediaType document sourceRoot urls :
          StateM Disk ImageMap).run d).1.lookup url = images.lookup url := by
  intro images
  have himages : images = imagesIn mediaType d document sourceRoot (imageUrls ns) :=
    run_collectImages ns
  refine ⟨fun url => ?_, pairwise_firstUrls _, ?_, fun url image => ?_, fun urls hurls url => ?_⟩
  · rw [imageUrls_eq, mem_firstUrls, mem_occurringUrls, isLocal_iff]
  · rw [himages]
    exact (nodup_firstUrls _).sublist (map_fst_imagesIn_sublist _)
  · have hbytes : ∀ p bytes, image = encodeImage mediaType p bytes →
        bytesOfBase64 image.data.toList = bytes.toList := by
      rintro p bytes rfl
      simp only [encodeImage, String.toList_ofList, bytesOfBase64_base64]
    rw [himages, lookup_imagesIn]
    by_cases hurl : url ∈ imageUrls ns
    · rw [if_pos hurl, imageAt_eq_some_iff]
      constructor
      · rintro ⟨p, bytes, hpath, hread, himage⟩
        exact ⟨hurl, p, bytes, hpath, hread, himage, hbytes p bytes himage⟩
      · rintro ⟨-, p, bytes, hpath, hread, himage, -⟩
        exact ⟨p, bytes, hpath, hread, himage⟩
    · simp [hurl]
  · obtain ⟨log, hread⟩ := run_readImages mediaType document sourceRoot urls d
    rw [hread, himages]
    simp only [lookup_imagesIn, hurls.mem_iff]

/-! An image in a caption, which is there twice, one of a kind that was not read, whose file is
missing, and one that is elsewhere. -/

def pictured : List Node :=
  [.parent (.container (some "figure") {} none none)
    [.parent .caption [.leaf (.image { url := "x.png" })],
      .parent (.other "image" (.ofList [("url", .string "y.png")])) []],
    .leaf (.image { url := "x.png" }), .leaf (.image { url := " HTTP://z.png" })]

def pictures : Disk where
  entries := [(["in"], .directory), (["in", "x.png"], .file ⟨#[1]⟩)]
  workingDirectory := []

theorem imageUrls_pictured : imageUrls pictured = ["x.png", "y.png"] := by decide

theorem readBytes_pictures : pictures.readBytes ⟨"in/x.png"⟩ = .ok ⟨#[1]⟩ := by
  have hfind : pictures.find ⟨"in/x.png"⟩ = .ok (.file ⟨#[1]⟩) :=
    Disk.find_of_walk (by decide) (by cbv) (by decide) rfl rfl
  exact Disk.readBytes_eq_ok_iff.mpr (Disk.find_eq_ok_iff.mp hfind)

theorem toList_pictureBytes : (⟨#[1]⟩ : ByteArray).toList = [1] := by
  rw [ByteArray.toList, ByteArray.toList.loop, if_pos (by decide), ByteArray.toList.loop,
    if_neg (by decide)]
  rfl

theorem collectImages_exact_pictured :
    let images := ((collectImages MediaType.ofPath pictured ⟨"in/a.json"⟩ ⟨"in"⟩ :
      StateM Disk ImageMap).run pictures).1
    ["y.png", "x.png"].Perm (imageUrls pictured) ∧
      (∀ url, ((readImages MediaType.ofPath ⟨"in/a.json"⟩ ⟨"in"⟩ ["y.png", "x.png"] :
        StateM Disk ImageMap).run pictures).1.lookup url = images.lookup url) ∧
      images.lookup "x.png" = some { mime := "image/png", data := "AQ==" } ∧
      images.lookup "y.png" = none := by
  obtain ⟨-, -, -, hlookup, horder⟩ :=
    collectImages_exact MediaType.ofPath pictured ⟨"in/a.json"⟩ ⟨"in"⟩ pictures
  have hperm : ["y.png", "x.png"].Perm (imageUrls pictured) := by
    rw [imageUrls_pictured]
    exact .swap _ _ _
  refine ⟨hperm, horder _ hperm, (hlookup _ _).mpr ⟨?_, ⟨"in/x.png"⟩, ⟨#[1]⟩, ?_⟩, ?_⟩
  · simp [imageUrls_pictured]
  · refine ⟨by decide, readBytes_pictures, ?_, ?_⟩
    · rw [encodeImage, toList_pictureBytes]
      decide
    · rw [toList_pictureBytes]
      decide
  · refine Option.eq_none_iff_forall_ne_some.mpr fun image himage => ?_
    obtain ⟨-, p, bytes, hpath, hread, -⟩ := (hlookup _ _).mp himage
    obtain rfl : ⟨"in/y.png"⟩ = p := Option.some.inj hpath
    have hnone : pictures.entry? (pictures.place ⟨"in/y.png"⟩) = none := by decide
    obtain ⟨-, hentry⟩ := Disk.readBytes_eq_ok_iff.mp hread
    rw [hnone] at hentry
    cases hentry

end Project
end MystNotebook
