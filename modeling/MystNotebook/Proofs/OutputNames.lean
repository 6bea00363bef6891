import Mathlib.Data.List.TakeWhile
import MystNotebook.Project.Export
import MystNotebook.Proofs.PathNames

/-! The names of notebooks in the directories that pages ask for. A notebook beside its page has the
stem of the page, while in a directory the stem loses what looks like its own extension. -/
namespace MystNotebook

namespace Path

/-! The name of a file with parts behind it that name nothing. -/

theorem slash_not_mem_of_parts {p : Path} {front rest : List (List Char)} {part : List Char}
    (h : p.parts = front ++ part :: rest) : '/' ∉ part :=
  not_mem_of_mem_splitSlashes (s := p.text.toList) (by rw [← parts, h]; simp)

theorem splitSlashes_append {s t last first : List Char} {front rest : List (List Char)}
    (hs : splitSlashes s = front ++ [last]) (ht : splitSlashes t = first :: rest) :
    splitSlashes (s ++ t) = front ++ (last ++ first) :: rest := by
  obtain ⟨hs, hslash⟩ := splitSlashes_eq_concat_iff.mp hs
  obtain ⟨hfront, hlast⟩ := List.forall_mem_append.mp hslash
  have hrest : ∀ part ∈ first :: rest, '/' ∉ part := fun part hpart =>
    not_mem_of_mem_splitSlashes (ht ▸ hpart)
  have hjoin : joinSlashes ((last ++ first) :: rest) = last ++ joinSlashes (first :: rest) := by
    cases rest <;> simp [joinSlashes]
  have hst : s ++ t = joinSlashes (front ++ (last ++ first) :: rest) := by
    rw [joinSlashes_append_cons, hjoin, ← ht, joinSlashes_splitSlashes, hs, List.append_assoc]
  rw [hst, splitSlashes_joinSlashes (by simp)]
  simp only [List.forall_mem_append, List.forall_mem_cons] at hrest ⊢
  refine ⟨hfront, ?_, hrest.2⟩
  rw [List.mem_append, not_or]
  exact ⟨hlast last (by simp), hrest.1⟩

/-- Cutting such parts off in the middle leaves no name. -/
theorem hollow_take {s : List Char} (h : ∀ part ∈ splitSlashes s, isHollow part = true) (k : Nat) :
    ∀ part ∈ splitSlashes (s.take k), isHollow part = true := by
  obtain ⟨front, last, hfront⟩ := exists_parts_eq_concat ⟨String.ofList (s.take k)⟩
  obtain ⟨first, rest, hrest⟩ :=
    List.exists_cons_of_ne_nil (parts_ne_nil ⟨String.ofList (s.drop k)⟩)
  simp only [parts, String.toList_ofList] at hfront hrest
  rw [← List.take_append_drop k s, splitSlashes_append hfront hrest] at h
  simp only [List.forall_mem_append, List.forall_mem_cons] at h
  rw [hfront, List.forall_mem_append, List.forall_mem_singleton]
  refine ⟨h.1, ?_⟩
  have hlast := h.2.1
  simp only [isHollow, Bool.or_eq_true, decide_eq_true_eq, List.append_eq_nil_iff,
    List.append_eq_singleton_iff] at hlast ⊢
  tauto

/-- The name of a file is the last part that names something, unless that goes up. -/
theorem fileNameChars_eq (p : Path) : p.fileNameChars =
    (p.parts.reverse.find? (! isHollow ·)).filter (· ≠ ['.', '.']) := by
  have hstrip : ∀ ps : List (List Char), (ps.reverse.dropWhile isHollow).reverse.getLast? =
      ps.reverse.find? (! isHollow ·) := fun ps => by
    rw [List.getLast?_reverse, List.find?_not_eq_head?_dropWhile]
  have hbody : p.body.2.getLast? = p.parts.reverse.find? (! isHollow ·) := by
    rw [body]
    split
    · next part rest h =>
      rw [h, List.reverse_cons, List.find?_append, hstrip]
      simp [isHollow]
    · next rest h =>
      rw [h, List.reverse_cons, List.find?_append, hstrip]
      simp [isHollow]
    · exact hstrip _
  rw [fileNameChars, hbody]
  cases p.parts.reverse.find? (! isHollow ·) with
  | none => rfl
  | some name => by_cases h : name = ['.', '.'] <;> simp [h, Option.filter_some]

theorem fileNameChars_eq_some_iff {p : Path} {name : List Char} : p.fileNameChars = some name ↔
    IsName name ∧ ∃ front hollow, p.parts = front ++ name :: hollow ∧
      ∀ part ∈ hollow, isHollow part = true := by
  constructor
  · intro h
    rw [fileNameChars_eq, Option.filter_eq_some_iff, List.find?_eq_some_iff_append] at h
    obtain ⟨⟨hname, before, after, hparts, hbefore⟩, hup⟩ := h
    have hsplit : p.parts = after.reverse ++ name :: before.reverse := by
      rw [← List.reverse_reverse p.parts, hparts]
      simp
    have hisName : IsName name :=
      ⟨by simpa using hname, by simpa using hup, slash_not_mem_of_parts hsplit⟩
    exact ⟨hisName, after.reverse, before.reverse, hsplit, by simpa using hbefore⟩
  · rintro ⟨hname, front, hollow, hparts, hhollow⟩
    exact fileNameChars_of_hollow hparts hname hhollow

theorem fileNameChars_join_dot (p : Path) : (p.join ⟨"."⟩).fileNameChars = p.fileNameChars := by
  rw [fileNameChars_eq, fileNameChars_eq, parts_join_part (by decide)]
  obtain ⟨front, last, hparts⟩ := p.exists_parts_eq_concat
  by_cases hlast : last = []
  · subst hlast
    rw [front_of_parts_nil hparts, hparts]
    simp [isHollow]
  · rw [front_of_parts hparts hlast, hparts]
    simp [isHollow]

/-! Other extensions. -/

theorem splitName_fst_of_none {name : List Char} (h : (splitName name).2 = none) :
    (splitName name).1 = name := by
  rw [splitName_eq] at h ⊢
  have hempty : (Attachment.splitExtension name).2 = [] := by
    cases hsuffix : (Attachment.splitExtension name).2 with
    | nil => rfl
    | cons c suffix => simp [hsuffix] at h
  simpa [hempty] using Attachment.splitExtension_append name

theorem splitName_fst_eq_iff {name : List Char} :
    (splitName name).1 = name ↔ (splitName name).2 = none := by
  refine ⟨fun h => ?_, splitName_fst_of_none⟩
  cases hext : (splitName name).2 with
  | none => rfl
  | some extension =>
    have heq := (eq_of_splitName_eq_some hext).1
    rw [h, List.self_eq_append_right] at heq
    cases heq

theorem splitName_fst_ne_nil {name : List Char} (h : name ≠ []) : (splitName name).1 ≠ [] := by
  cases hext : (splitName name).2 with
  | none => rwa [splitName_fst_of_none hext]
  | some extension => exact (eq_of_splitName_eq_some hext).2.1

theorem withExtension_of_noName {p : Path} (h : p.fileNameChars = none) (extension : String) :
    p.withExtension extension = p := by
  simp [withExtension, extensionChars, setExtension, h]

theorem withExtension_of_noExtension {p : Path} {name : List Char}
    (h : p.fileNameChars = some name) (hnone : (splitName name).2 = none) (extension : String) :
    p.withExtension extension = p.setExtension extension := by
  simp [withExtension, extensionChars, h, hnone]

theorem parts_withExtension_of_last {p : Path} {front : List (List Char)} {last : List Char}
    {extension : String} (h : p.parts = front ++ [last]) (hlast : isHollow last = false)
    (hext : '/' ∉ extension.toList) :
    (p.withExtension extension).parts =
      front ++ [renamed (splitName last).1 extension.toList] := by
  by_cases hup : last = ['.', '.']
  · subst hup
    rw [withExtension_of_noName (fileNameChars_of_parts_up h), h]
    rfl
  · have hname : IsName last :=
      ⟨hlast, hup, slash_not_mem_of_parts h⟩
    cases hold : (splitName last).2 with
    | some old => exact parts_withExtension h hname hold hext
    | none =>
      have hdot : last ≠ ['.'] := fun heq => absurd hlast (by simp [heq, isHollow])
      rw [withExtension_of_noExtension (fileNameChars_of_parts h hname) hold,
        parts_setExtension h hname hext, splitName_fst_of_none hold, renamed, if_neg hdot]
      simp

theorem splitSlashes_of_flatMap {front : List (List Char)} {last : List Char}
    (hfront : ∀ part ∈ front, '/' ∉ part) (hlast : '/' ∉ last) :
    splitSlashes (front.flatMap (· ++ ['/']) ++ last) = front ++ [last] :=
  splitSlashes_eq_concat_iff.mpr
    ⟨rfl, List.forall_mem_append.mpr ⟨hfront, List.forall_mem_singleton.mpr hlast⟩⟩

theorem parts_ofList (s : List Char) : (⟨String.ofList s⟩ : Path).parts = splitSlashes s := by
  rw [parts, String.toList_ofList]

/-- A text less as many characters as its name has in the extension. -/
theorem take_sub_extension {before stem old tail : List Char} :
    (before ++ (stem ++ '.' :: old) ++ '/' :: tail).take
        ((before ++ (stem ++ '.' :: old) ++ '/' :: tail).length - old.length) =
      if old.length ≤ tail.length then
        before ++ (stem ++ '.' :: old) ++ '/' :: tail.take (tail.length - old.length)
      else before ++ (stem ++ '.' :: old.take (tail.length + 1)) := by
  split
  · next h =>
    have hlength : (before ++ (stem ++ '.' :: old) ++ '/' :: tail).length - old.length =
        (before ++ (stem ++ '.' :: old)).length + (tail.length - old.length + 1) := by
      simp only [List.length_append, List.length_cons]
      omega
    rw [hlength, List.take_length_add_append, List.take_succ_cons]
  · next h =>
    have hregroup : before ++ (stem ++ '.' :: old) ++ '/' :: tail =
        (before ++ (stem ++ ['.'])) ++ (old ++ '/' :: tail) := by simp
    have hlength : ((before ++ (stem ++ ['.'])) ++ (old ++ '/' :: tail)).length - old.length =
        (before ++ (stem ++ ['.'])).length + (tail.length + 1) := by
      simp only [List.length_append, List.length_cons]
      omega
    rw [hregroup, hlength, List.take_length_add_append, List.take_append_of_le_length (by omega)]
    simp

/-- The text without the extension of its name ends in the middle of the name or of the parts behind
it, which is no matter: the stem is there. -/
theorem parts_withExtension_of_hollow {p : Path} {front hollow : List (List Char)}
    {name : List Char} {extension : String} (h : p.parts = front ++ name :: hollow)
    (hname : IsName name) (hhollow : ∀ part ∈ hollow, isHollow part = true) (hne : hollow ≠ [])
    (hext : '/' ∉ extension.toList) :
    (p.withExtension extension).parts =
      front ++ [(splitName name).1 ++ ['.'] ++ extension.toList] := by
  have hchars := fileNameChars_of_hollow h hname hhollow
  cases hold : (splitName name).2 with
  | none =>
    rw [withExtension_of_noExtension hchars hold, parts_setExtension_of_hollow h hname hhollow hext]
  | some old =>
    have hset : p.withExtension extension =
        (⟨String.ofList (p.text.toList.take (p.text.length - old.length))⟩ : Path).setExtension
          extension := by
      simp [withExtension, extensionChars, hchars, hold]
    obtain ⟨heq, hstem, hdot⟩ := eq_of_splitName_eq_some hold
    generalize (splitName name).1 = stem at heq hstem
    subst heq
    have hslash : ∀ part ∈ front ++ (stem ++ '.' :: old) :: hollow, '/' ∉ part :=
      fun part hpart => not_mem_of_mem_splitSlashes (h ▸ hpart)
    rw [List.forall_mem_append, List.forall_mem_cons] at hslash
    obtain ⟨hfront, -, hslash⟩ := hslash
    obtain ⟨tail, rfl⟩ : ∃ tail, splitSlashes tail = hollow :=
      ⟨_, splitSlashes_joinSlashes hne hslash⟩
    have hsplit : ∀ tail, splitSlashes (front.flatMap (· ++ ['/']) ++ (stem ++ '.' :: old) ++
        '/' :: tail) = front ++ (stem ++ '.' :: old) :: splitSlashes tail := fun tail => by
      rw [splitSlashes_append_slash, splitSlashes_of_flatMap hfront hname.2.2, List.append_assoc]
      rfl
    have htext : p.text.toList = front.flatMap (· ++ ['/']) ++ (stem ++ '.' :: old) ++
        '/' :: tail := by
      rw [← joinSlashes_splitSlashes p.text.toList, ← parts, h, ← hsplit, joinSlashes_splitSlashes]
    rw [hset, ← String.length_toList, htext, take_sub_extension]
    split
    · next hlength =>
      have hparts := (parts_ofList _).trans (hsplit (tail.take (tail.length - old.length)))
      rw [parts_setExtension_of_hollow hparts hname (hollow_take hhollow _) hext,
        splitName_dot hstem hdot]
    · next hlength =>
      have hnil : old.take (tail.length + 1) ≠ [] := fun hnil => by
        have hold := (List.take_eq_nil_iff.mp hnil).resolve_left (by omega)
        simp [hold] at hlength
      have hshort : '.' ∉ old.take (tail.length + 1) := fun hmem => hdot (List.mem_of_mem_take hmem)
      have hkept : IsName (stem ++ '.' :: old.take (tail.length + 1)) := by
        refine isName_append_dot (fun hmem => hname.2.2 (by simp [hmem])) hnil hshort fun hmem => ?_
        exact hname.2.2 (by simp [List.mem_of_mem_take hmem])
      have hparts := (parts_ofList _).trans (splitSlashes_of_flatMap hfront hkept.2.2)
      rw [parts_setExtension hparts hkept hext, splitName_dot hstem hshort]

section Extensions

variable {extension : String} (hne : extension.toList ≠ []) (hdot : '.' ∉ extension.toList)
  (hslash : '/' ∉ extension.toList)

include hne hdot hslash

/-- The name with another extension; only a stem that is a dot may lose it. -/
theorem fileNameChars_withExtension (p : Path) : (p.withExtension extension).fileNameChars =
    p.fileNameChars.bind fun name =>
      if (splitName name).1 = ['.'] ∧ p.parts.getLast? = some name then none
      else some ((splitName name).1 ++ '.' :: extension.toList) := by
  cases h : p.fileNameChars with
  | none => rw [withExtension_of_noName h, h]; rfl
  | some name =>
    obtain ⟨hname, front, hollow, hparts, hhollow⟩ := fileNameChars_eq_some_iff.mp h
    have hrenamed : IsName ((splitName name).1 ++ '.' :: extension.toList) :=
      isName_append_dot (fun hmem => hname.2.2 (splitName_fst_subset name hmem)) hne hdot hslash
    rw [Option.bind_some]
    rcases List.eq_nil_or_concat' hollow with rfl | ⟨init, part, rfl⟩
    · have hwith := parts_withExtension_of_last hparts hname.1 hslash
      rw [renamed] at hwith
      split at hwith
      · next hstem => rw [if_pos ⟨hstem, by simp [hparts]⟩, fileNameChars_of_parts_up hwith]
      · next hstem => rw [if_neg fun hand => hstem hand.1, fileNameChars_of_parts hwith hrenamed]
    · have hwith := parts_withExtension_of_hollow hparts hname hhollow (by simp) hslash
      have hlast : p.parts.getLast? ≠ some name := by
        have hpart := hhollow part (by simp)
        rw [hparts, ← List.cons_append, ← List.append_assoc, List.getLast?_concat, ne_eq,
          Option.some_inj]
        rintro rfl
        simp [hname.1] at hpart
      rw [List.append_assoc, List.singleton_append] at hwith
      rw [if_neg fun hand => hlast hand.2, fileNameChars_of_parts hwith hrenamed]

/-- The names of files with one extension differ as their stems do. -/
theorem fileName_withExtension_eq_iff {p q : Path} :
    (p.withExtension extension).fileName = (q.withExtension extension).fileName ↔
      (p.withExtension extension).stem = (q.withExtension extension).stem := by
  have hcases : ∀ p : Path, (p.withExtension extension).fileNameChars = none ∨ ∃ stem ≠ [],
      (p.withExtension extension).fileNameChars = some (stem ++ '.' :: extension.toList) := by
    intro p
    rw [fileNameChars_withExtension hne hdot hslash]
    cases h : p.fileNameChars with
    | none => exact .inl rfl
    | some name =>
      rw [Option.bind_some]
      split
      · exact .inl rfl
      · exact .inr ⟨_, splitName_fst_ne_nil (fileNameChars_eq_some_iff.mp h).1.ne_nil, rfl⟩
  simp only [fileName, stem]
  rcases hcases p with h | ⟨s, hs, h⟩ <;> rcases hcases q with h' | ⟨t, ht, h'⟩ <;> rw [h, h']
  · simp
  · simp
  · simp
  · simp [splitName_dot hs hdot, splitName_dot ht hdot]

/-- Behind a dot that names nothing the extension goes to the name before it. -/
theorem withExtension_join_dot (p : Path) :
    ((p.join ⟨"."⟩).withExtension extension).stem = p.stem ∧
      ∀ stem, ((p.join ⟨"."⟩).withExtension extension).parts ≠
        p.front ++ [renamed stem extension.toList] := by
  have hparts : (p.join ⟨"."⟩).parts = p.front ++ [['.']] := parts_join_part (by decide) p
  constructor
  · rw [stem, fileNameChars_withExtension hne hdot hslash, fileNameChars_join_dot, stem]
    cases h : p.fileNameChars with
    | none => rfl
    | some name =>
      obtain ⟨hname, -⟩ := fileNameChars_eq_some_iff.mp h
      have hlast : (p.join ⟨"."⟩).parts.getLast? ≠ some name := by
        rw [hparts, List.getLast?_concat, ne_eq, Option.some_inj]
        rintro rfl
        exact absurd hname.1 (by decide)
      rw [Option.bind_some, if_neg fun hand => hlast hand.2, Option.map_some, Option.map_some,
        splitName_dot (splitName_fst_ne_nil hname.ne_nil) hdot]
  · intro stem heq
    cases h : (p.join ⟨"."⟩).fileNameChars with
    | none =>
      rw [withExtension_of_noName h, hparts, List.append_cancel_left_eq, renamed] at heq
      split at heq
      · exact absurd heq (by decide)
      · have heq' := heq.symm
        simp [List.append_eq_singleton_iff, hne] at heq'
    | some name =>
      obtain ⟨hname, front, hollow, hsplit, hhollow⟩ := fileNameChars_eq_some_iff.mp h
      have hnil : hollow ≠ [] := by
        rintro rfl
        rw [hparts] at hsplit
        obtain ⟨-, rfl⟩ := List.append_singleton_inj.mp hsplit
        exact absurd hname.1 (by decide)
      have hlength := congrArg List.length heq
      have hlength' := congrArg List.length (hparts.symm.trans hsplit)
      rw [parts_withExtension_of_hollow hsplit hname hhollow hnil hslash] at hlength
      simp only [List.length_append, List.length_cons, List.length_nil] at hlength hlength'
      have hpos := List.length_pos_of_ne_nil hnil
      omega

end Extensions

end Path

namespace Project

/-- The path that a page asks for in its frontmatter. -/
def exportTarget (page : Path) (frontmatter : Frontmatter) : Option Path :=
  (frontmatter.notebookExport.bind (·.output)).map fun output => (pageDirectory page).join ⟨output⟩

def isNotebookFile (p : Path) : Bool := p.extension.any (Text.sameLetters · notebookExtension)

theorem defaultOutput_of_directory {input target : Path} {frontmatter : Frontmatter}
    {stem : String} (hstem : input.stem = some stem)
    (htarget : exportTarget input frontmatter = some target) (h : isNotebookFile target = false) :
    defaultOutput input frontmatter =
      (target.join ⟨stem⟩).withExtension notebookExtension := by
  rw [exportTarget, Option.map_eq_some_iff] at htarget
  obtain ⟨output, houtput, rfl⟩ := htarget
  rw [isNotebookFile] at h
  simp [defaultOutput, houtput, h, hstem]

variable {input target : Path} {frontmatter : Frontmatter} {stem : String}

theorem exists_name_of_stem (hstem : input.stem = some stem) :
    ∃ name, input.fileNameChars = some name ∧ (Path.splitName name).1 = stem.toList ∧
      stem ≠ "" ∧ '/' ∉ stem.toList := by
  rw [Path.stem, Option.map_eq_some_iff] at hstem
  obtain ⟨name, hname, rfl⟩ := hstem
  obtain ⟨hisName, -⟩ := Path.fileNameChars_eq_some_iff.mp hname
  have hne := Path.splitName_fst_ne_nil hisName.ne_nil
  refine ⟨name, hname, String.toList_ofList.symm, by simpa using hne, fun hmem => ?_⟩
  rw [String.toList_ofList] at hmem
  exact hisName.2.2 (Path.splitName_fst_subset name hmem)

/-- Beside the page the notebook has its stem. -/
theorem stem_sibling (hstem : input.stem = some stem) (hdot : stem ≠ ".") :
    (input.withExtension notebookExtension).stem = some stem := by
  obtain ⟨name, hname, hfst, hne, -⟩ := exists_name_of_stem hstem
  have hchars : (input.withExtension notebookExtension).fileNameChars =
      some (stem.toList ++ '.' :: notebookExtension.toList) := by
    have hstemDot : stem.toList ≠ ['.'] := fun h => hdot (String.toList_injective h)
    rw [Path.fileNameChars_withExtension (by decide) (by decide) (by decide), hname,
      Option.bind_some, hfst, if_neg fun hand => hstemDot hand.1]
  have hsplit : Path.splitName (stem.toList ++ '.' :: notebookExtension.toList) =
      (stem.toList, some notebookExtension.toList) :=
    Path.splitName_dot (by simpa using hne) (by decide)
  rw [Path.stem, hchars, Option.map_some, hsplit, String.ofList_toList]

theorem parts_join_stem (hstem : input.stem = some stem) (hdot : stem ≠ ".") (target : Path) :
    ((target.join ⟨stem⟩).withExtension notebookExtension).parts = target.front ++
      [Path.renamed (Path.splitName stem.toList).1 notebookExtension.toList] := by
  obtain ⟨-, -, -, hne, hslash⟩ := exists_name_of_stem hstem
  refine Path.parts_withExtension_of_last (Path.parts_join_part hslash target) ?_ (by decide)
  have hnil : stem.toList ≠ [] := by simpa using hne
  have hstemDot : stem.toList ≠ ['.'] := fun h => hdot (String.toList_injective h)
  simp [Path.isHollow, hnil, hstemDot]

/-- In a directory that stem is cut at its last dot once more. -/
theorem stem_join_stem_eq_iff (hstem : input.stem = some stem) (hdot : stem ≠ ".")
    (target : Path) :
    ((target.join ⟨stem⟩).withExtension notebookExtension).stem = some stem ↔
      (Path.splitName stem.toList).2 = none := by
  obtain ⟨-, -, -, hne, hslash⟩ := exists_name_of_stem hstem
  have hparts := parts_join_stem hstem hdot target
  rw [← Path.splitName_fst_eq_iff]
  by_cases hcut : (Path.splitName stem.toList).1 = ['.']
  · have hstemDot : ['.'] ≠ stem.toList := fun h => hdot (String.toList_injective h.symm)
    rw [Path.renamed, if_pos hcut] at hparts
    simp [Path.stem, Path.fileNameChars_of_parts_up hparts, hcut, hstemDot]
  · rw [Path.renamed, if_neg hcut] at hparts
    have hname := Path.fileNameChars_of_parts hparts (Path.isName_append_dot
      (fun hmem => hslash (Path.splitName_fst_subset _ hmem)) (by decide) (by decide) (by decide))
    rw [Path.stem, hname, Option.map_some, Option.some_inj,
      Path.splitName_dot (Path.splitName_fst_ne_nil (by simpa using hne)) (by decide),
      ← String.toList_inj, String.toList_ofList]

/-- A page that asks for a directory keeps its name there exactly if its stem has no extension of
its own, and two pages share a notebook there exactly if what is left of their stems without these
is the same. A stem that is a dot names the directory itself. -/
theorem defaultOutput_directory_iff (hstem : input.stem = some stem)
    (htarget : exportTarget input frontmatter = some target)
    (hdirectory : isNotebookFile target = false) :
    ((defaultOutput input frontmatter).fileName =
        (input.withExtension notebookExtension).fileName ↔
      (Path.splitName stem.toList).2 = none ∧
        (stem = "." → target.stem = (input.withExtension notebookExtension).stem)) ∧
    ∀ (other : Path) (frontmatter' : Frontmatter) (stem' : String), other.stem = some stem' →
      exportTarget other frontmatter' = some target →
      (defaultOutput input frontmatter = defaultOutput other frontmatter' ↔
        (Path.splitName stem.toList).1 = (Path.splitName stem'.toList).1 ∧
          (stem = "." ↔ stem' = ".")) := by
  rw [defaultOutput_of_directory hstem htarget hdirectory]
  constructor
  · rw [Path.fileName_withExtension_eq_iff (by decide) (by decide) (by decide)]
    by_cases hdot : stem = "."
    · subst hdot
      rw [(Path.withExtension_join_dot (by decide) (by decide) (by decide) target).1]
      exact ⟨fun h => ⟨by decide, fun _ => h⟩, fun h => h.2 rfl⟩
    · rw [stem_sibling hstem hdot, stem_join_stem_eq_iff hstem hdot]
      simp [hdot]
  · intro other frontmatter' stem' hstem' htarget'
    rw [defaultOutput_of_directory hstem' htarget' hdirectory]
    have hapart : ∀ {page : Path} {s : String}, page.stem = some s → s ≠ "." →
        (target.join ⟨"."⟩).withExtension notebookExtension ≠
          (target.join ⟨s⟩).withExtension notebookExtension := fun hs hne heq =>
      (Path.withExtension_join_dot (by decide) (by decide) (by decide) target).2 _
        ((congrArg Path.parts heq).trans (parts_join_stem hs hne target))
    by_cases hdot : stem = "." <;> by_cases hdot' : stem' = "."
    · simp [hdot, hdot']
    · subst hdot
      simp [hapart hstem' hdot', hdot']
    · subst hdot'
      simp [(hapart hstem hdot).symm, hdot]
    · rw [← Path.parts_injective.eq_iff, parts_join_stem hstem hdot, parts_join_stem hstem' hdot',
        List.append_cancel_left_eq, List.singleton_inj,
        Path.renamed_inj (by decide) (by decide)]
      simp [hdot, hdot']

/-- A page that asks for a directory. -/
def directoryExport : Frontmatter :=
  { exports := [{ format := some "ipynb", output := some "out/" }] }

theorem defaultOutput_directory_twoPages :
    (defaultOutput ⟨"in/a.json"⟩ directoryExport).fileName =
        ((⟨"in/a.json"⟩ : Path).withExtension notebookExtension).fileName ∧
      defaultOutput ⟨"in/a.json"⟩ directoryExport ≠
        defaultOutput ⟨"in/b.json"⟩ directoryExport := by
  have hstem : (⟨"in/a.json"⟩ : Path).stem = some "a" := by decide
  have htarget : exportTarget ⟨"in/a.json"⟩ directoryExport = some ⟨"in/out/"⟩ := by decide
  have hiff := defaultOutput_directory_iff hstem htarget (by decide)
  have hother := hiff.2 ⟨"in/b.json"⟩ directoryExport "b" (by decide) (by decide)
  exact ⟨hiff.1.mpr (by decide), hother.not.mpr (by decide)⟩

/-- Two pages with different stems and one notebook. -/
theorem defaultOutput_dottedStems :
    defaultOutput ⟨"in/a.b.json"⟩ directoryExport = ⟨"in/out/a.ipynb"⟩ ∧
      defaultOutput ⟨"in/a.c.json"⟩ directoryExport = ⟨"in/out/a.ipynb"⟩ ∧
      (⟨"in/a.b.json"⟩ : Path).withExtension notebookExtension = ⟨"in/a.b.ipynb"⟩ := by
  decide

end Project

end MystNotebook
