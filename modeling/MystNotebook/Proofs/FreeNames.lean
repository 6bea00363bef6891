import Mathlib.Data.List.Nodup
import Mathlib.Data.List.Perm.Subperm
import Mathlib.Data.List.TakeWhile
import Mathlib.Data.Nat.Find
import MystNotebook.Attachment.Embed

/-! Names for attachments: they are names of files, without slashes, query or fragment, and the name
that is chosen for a new attachment is free. -/
namespace MystNotebook
namespace Attachments

theorem contains_iff {a : Attachments} {name : String} :
    a.contains name = true ↔ name ∈ a.names := by
  obtain ⟨l⟩ := a
  simp only [contains, get?, names, List.lookup_isSome_iff, List.mem_map, beq_iff_eq]
  constructor
  · rintro ⟨e, he, rfl⟩
    exact ⟨e, he, rfl⟩
  · rintro ⟨e, he, rfl⟩
    exact ⟨e, he, rfl⟩

theorem put_of_not_mem {name : String} {l : List (String × MimeBundle)}
    (h : name ∉ l.map Prod.fst) (bundle : MimeBundle) :
    put name bundle l = l ++ [(name, bundle)] := by
  induction l with
  | nil => rfl
  | cons e l ih =>
    obtain ⟨n, b⟩ := e
    rw [List.map_cons, List.mem_cons, not_or] at h
    rw [put, if_neg (Ne.symm h.1), ih h.2, List.cons_append]

end Attachments

namespace Attachment

/-- A name that no url takes for a path, a query or a fragment. -/
def IsFileName (name : String) : Prop :=
  name ≠ "" ∧ ∀ c ∈ name.toList, c ≠ '/' ∧ c ≠ '?' ∧ c ≠ '#'

theorem isFileName_baseName (url : String) : IsFileName (baseName url) := by
  unfold baseName
  simp only []
  split
  next => exact ⟨by decide, by simp⟩
  next h =>
    have hpath : ∀ c ∈ urlPath url.toList, c ≠ '?' ∧ c ≠ '#' := by
      intro c hc
      simpa using List.all_eq_true.mp (List.all_takeWhile (l := url.toList)) c hc
    have hlast : ∀ c ∈ lastSegment (urlPath url.toList), c ≠ '/' ∧ c ∈ urlPath url.toList := by
      intro c hc
      rw [lastSegment, List.mem_reverse] at hc
      refine ⟨by simpa using List.all_eq_true.mp List.all_takeWhile c hc, ?_⟩
      exact List.mem_reverse.mp ((List.dropWhile_sublist _).subset
        ((List.takeWhile_sublist _).subset hc))
    refine ⟨by simpa using h, fun c hc => ?_⟩
    rw [String.toList_ofList] at hc
    exact ⟨(hlast c hc).1, hpath c (hlast c hc).2⟩

theorem splitExtension_of_not_mem {name : List Char} (h : '.' ∉ name) :
    splitExtension name = (name, []) := by
  have htake : name.reverse.takeWhile (· ≠ '.') = name.reverse :=
    List.takeWhile_eq_self_iff.mpr fun c hc =>
      decide_eq_true fun he => h (he ▸ List.mem_reverse.mp hc)
  simp only [splitExtension, htake, List.reverse_reverse]
  simp

/-- The last dot ends the stem, unless it is the first character. -/
theorem splitExtension_dot {extension : List Char} (h : '.' ∉ extension) (stem : List Char) :
    splitExtension (stem ++ '.' :: extension) =
      if stem.isEmpty then (stem ++ '.' :: extension, []) else (stem, '.' :: extension) := by
  have hpos : ∀ c ∈ extension.reverse, decide (c ≠ '.') = true := fun c hc =>
    decide_eq_true fun he => h (he ▸ List.mem_reverse.mp hc)
  have htake : (stem ++ '.' :: extension).reverse.takeWhile (· ≠ '.') = extension.reverse := by
    rw [List.reverse_append, List.reverse_cons, List.append_assoc,
      List.takeWhile_append_of_pos hpos]
    simp
  have hlength : (stem ++ '.' :: extension).length - extension.length - 1 = stem.length := by
    simp only [List.length_append, List.length_cons]
    omega
  simp only [splitExtension, htake, List.reverse_reverse, hlength, List.take_left]

theorem eq_of_mem_dot {name : List Char} (h : '.' ∈ name) :
    ∃ stem extension, '.' ∉ extension ∧ name = stem ++ '.' :: extension := by
  obtain ⟨front, back, hname, hfront⟩ := List.eq_append_cons_of_mem (List.mem_reverse.mpr h)
  refine ⟨back.reverse, front.reverse, by simpa using hfront, ?_⟩
  simpa using congrArg List.reverse hname

/-- Stem and extension make up the name. -/
theorem splitExtension_append (name : List Char) :
    (splitExtension name).1 ++ (splitExtension name).2 = name := by
  by_cases h : '.' ∈ name
  · obtain ⟨stem, extension, hextension, rfl⟩ := eq_of_mem_dot h
    rw [splitExtension_dot hextension]
    split <;> simp
  · rw [splitExtension_of_not_mem h, List.append_nil]

theorem toList_numberedName (name : String) (n : Nat) :
    (numberedName name n).toList = (splitExtension name.toList).1 ++
      '_' :: (n.repr.toList ++ (splitExtension name.toList).2) := by
  simp [numberedName]

theorem numberedName_injective (name : String) : Function.Injective (numberedName name) := by
  intro m n h
  have hlist := congrArg String.toList h
  rw [toList_numberedName, toList_numberedName, List.append_cancel_left_eq, List.cons.injEq,
    List.append_cancel_right_eq] at hlist
  have hdigits := congrArg (Nat.ofDigitChars 10 · 0) hlist.2
  simpa only [Nat.toList_repr, Nat.ofDigitChars_ten_toDigits] using hdigits

theorem isFileName_numberedName {name : String} (h : IsFileName name) (n : Nat) :
    IsFileName (numberedName name n) := by
  constructor
  · intro hempty
    have hlist := congrArg String.toList hempty
    rw [toList_numberedName] at hlist
    simp at hlist
  · have hdigits : ∀ c ∈ n.repr.toList, c ≠ '/' ∧ c ≠ '?' ∧ c ≠ '#' := by
      intro c hc
      rw [Nat.toList_repr] at hc
      have hdigit := Nat.isDigit_of_mem_toDigits (by decide) (by decide) hc
      refine ⟨?_, ?_, ?_⟩ <;> rintro rfl <;> exact absurd hdigit (by decide)
    have hname := h.2
    rw [← splitExtension_append name.toList, List.forall_mem_append] at hname
    rw [toList_numberedName, List.forall_mem_append, List.forall_mem_cons, List.forall_mem_append]
    exact ⟨hname.1, by decide, hdigits, hname.2⟩

/-! Of the name and as many numbered names as there are names in use one is free, since they all
differ. -/

theorem numberedName_ne_self (name : String) (n : Nat) : numberedName name n ≠ name := by
  intro h
  have hlength := congrArg (List.length ∘ String.toList) h
  have hname := congrArg List.length (splitExtension_append name.toList)
  simp only [Function.comp_apply, toList_numberedName, List.length_append, List.length_cons]
    at hlength hname
  omega

/-- The numbered names of a name, in the order in which they are tried. -/
def numberedNames (name : String) (limit : Nat) : List String :=
  (List.range limit).map fun n => numberedName name (n + 1)

theorem mem_numberedNames {name candidate : String} {limit : Nat} :
    candidate ∈ numberedNames name limit ↔ ∃ n < limit, numberedName name (n + 1) = candidate := by
  simp [numberedNames]

theorem nodup_numberedNames (name : String) (limit : Nat) :
    (name :: numberedNames name limit).Nodup := by
  refine List.nodup_cons.mpr ⟨fun hmem => ?_, ?_⟩
  · obtain ⟨n, -, h⟩ := mem_numberedNames.mp hmem
    exact numberedName_ne_self name _ h
  · exact List.Nodup.map (fun m n h => Nat.succ.inj (numberedName_injective name h))
      List.nodup_range

variable {name : String} {taken : Attachments}

theorem exists_free_numberedName (h : taken.contains name = true) :
    ∃ n < taken.size, taken.contains (numberedName name (n + 1)) = false := by
  by_contra hall
  have hsubset : name :: numberedNames name taken.size ⊆ taken.names := by
    intro candidate hcandidate
    rw [← Attachments.contains_iff]
    rcases List.mem_cons.mp hcandidate with rfl | hcandidate
    · exact h
    · obtain ⟨n, hn, rfl⟩ := mem_numberedNames.mp hcandidate
      by_contra hfree
      exact hall ⟨n, hn, by simpa using hfree⟩
  have hlength := ((nodup_numberedNames name taken.size).subperm hsubset).length_le
  simp only [numberedNames, List.length_cons, List.length_map, List.length_range,
    Attachments.names, Attachments.size] at hlength
  omega

/-- The number of the first free name; the first numbered name has the number one. -/
def IsFirstFree (name : String) (taken : Attachments) (n : Nat) : Prop :=
  1 ≤ n ∧ taken.contains (numberedName name n) = false ∧
    ∀ m, 1 ≤ m → m < n → taken.contains (numberedName name m) = true

theorem exists_isFirstFree (h : taken.contains name = true) :
    ∃ n ≤ taken.size, IsFirstFree name taken n := by
  have hexists := exists_free_numberedName h
  obtain ⟨hsize, hfree⟩ := Nat.find_spec hexists
  refine ⟨Nat.find hexists + 1, hsize, Nat.le_add_left 1 _, hfree, fun m hm hlt => ?_⟩
  obtain ⟨k, rfl⟩ := Nat.exists_eq_add_of_le' hm
  have hsmaller := Nat.find_min hexists (Nat.lt_of_succ_lt_succ hlt)
  by_contra htaken
  exact hsmaller ⟨by omega, by simpa using htaken⟩

/-- However far the search could go on, it finds the first free name. -/
theorem IsFirstFree.find? {n limit : Nat} (h : IsFirstFree name taken n) (hlimit : n ≤ limit) :
    (numberedNames name limit).find? (fun candidate => !taken.contains candidate) =
      some (numberedName name n) := by
  obtain ⟨hpos, hfree, hsmaller⟩ := h
  obtain ⟨k, rfl⟩ := Nat.exists_eq_add_of_le' hpos
  have hrange : (List.range limit).find?
      ((fun candidate => !taken.contains candidate) ∘ fun n => numberedName name (n + 1)) =
        some k := by
    rw [List.find?_range_eq_some, List.mem_range]
    refine ⟨by simp [hfree], by omega, fun j hj => ?_⟩
    simp [hsmaller (j + 1) (Nat.le_add_left 1 j) (Nat.add_lt_add_right hj 1)]
  rw [numberedNames, List.find?_map, hrange, Option.map_some]

theorem freeName_of_free (h : taken.contains name = false) : freeName name taken = name := by
  simp [freeName, h]

theorem freeName_of_isFirstFree {n : Nat} (h : taken.contains name = true)
    (hn : IsFirstFree name taken n) (hsize : n ≤ taken.size) :
    freeName name taken = numberedName name n := by
  have hfind := hn.find? (Nat.le_succ_of_le hsize)
  rw [numberedNames] at hfind
  simp [freeName, h, hfind]

theorem freeName_cases (name : String) (taken : Attachments) :
    taken.contains (freeName name taken) = false ∧
      (freeName name taken = name ∨ ∃ n, freeName name taken = numberedName name n) := by
  cases h : taken.contains name with
  | false =>
    rw [freeName_of_free h]
    exact ⟨h, .inl rfl⟩
  | true =>
    obtain ⟨n, hsize, hn⟩ := exists_isFirstFree h
    rw [freeName_of_isFirstFree h hn hsize]
    exact ⟨hn.2.1, .inr ⟨n, rfl⟩⟩

theorem isFileName_freeName {name : String} (h : IsFileName name) (taken : Attachments) :
    IsFileName (freeName name taken) := by
  rcases (freeName_cases name taken).2 with he | ⟨n, he⟩
  · rwa [he]
  · rw [he]
    exact isFileName_numberedName h n

end Attachment
end MystNotebook
