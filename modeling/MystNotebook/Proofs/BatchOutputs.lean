import MystNotebook.Proofs.CollectedPages

/-! Where the pages of a batch go. An output has the directories of its page and its stem, so two
pages share one exactly if they differ in nothing but their extensions; no output is a page. -/
namespace MystNotebook

/-- Whether two files of a directory have one stem. -/
def Path.Alike (p q : Path) : Prop :=
  p.components.dropLast = q.components.dropLast ∧ p.stem = q.stem

instance (p q : Path) : Decidable (p.Alike q) := inferInstanceAs (Decidable (_ ∧ _))

namespace Project
open Disk

variable {d : Disk} {input file file' : Path} {directories directories' : List String}
  {name name' : String}

/-! The page and its output. -/

namespace PageBelow

theorem parts_eq (h : PageBelow d input directories name file) :
    file.parts = input.front ++ directories.map String.toList ++ [name.toList] := by
  rw [h.file_eq, Path.parts_descend_concat h.isName_directories h.isName]

theorem fileNameChars_eq (h : PageBelow d input directories name file) :
    file.fileNameChars = some name.toList :=
  Path.fileNameChars_of_parts h.parts_eq h.isName

theorem stem_eq (h : PageBelow d input directories name file) :
    file.stem = some (String.ofList (Path.splitName name.toList).1) := by
  rw [Path.stem, h.fileNameChars_eq, Option.map_some]

theorem stem_eq_dot_iff (h : PageBelow d input directories name file) :
    file.stem = some "." ↔ (Path.splitName name.toList).1 = ['.'] := by
  rw [h.stem_eq, Option.some_inj]
  change String.ofList _ = String.ofList ['.'] ↔ _
  rw [String.ofList_inj]

theorem exists_extension (h : PageBelow d input directories name file) :
    ∃ extension, (Path.splitName name.toList).2 = some extension ∧
      Text.sameLetters (String.ofList extension) "json" = true := by
  have hpage := h.isPage
  simp only [isPageFile, Path.extension, Path.extensionChars, h.fileNameChars_eq,
    Option.bind_some] at hpage
  cases hext : (Path.splitName name.toList).2 with
  | none => simp [hext] at hpage
  | some extension => exact ⟨extension, rfl, by simpa [hext] using hpage⟩

theorem components_eq (h : PageBelow d input directories name file) (hinput : input.text ≠ "") :
    file.components.dropLast = input.components ++ directories.map .name := by
  rw [h.file_eq, Path.components_descend hinput h.isNames]
  simp [← List.append_assoc]

theorem alike_iff (h : PageBelow d input directories name file)
    (h' : PageBelow d input directories' name' file') (hinput : input.text ≠ "") :
    file.Alike file' ↔ directories = directories' ∧
      (Path.splitName name.toList).1 = (Path.splitName name'.toList).1 := by
  have hname : Function.Injective Path.Component.name := fun a b => Path.Component.name.inj
  rw [Path.Alike, h.components_eq hinput, h'.components_eq hinput, h.stem_eq, h'.stem_eq,
    List.append_cancel_left_eq, hname.list_map.eq_iff, Option.some_inj, String.ofList_inj]

/-- The page as a path from the directory. -/
theorem parts_relative (h : PageBelow d input directories name file) :
    (Path.ofParts ((directories ++ [name]).map String.toList)).parts =
      (directories ++ [name]).map String.toList := by
  have hnames := List.forall_mem_map.mpr h.isNames
  rw [Path.parts_ofParts (by simp) _ fun part hpart => (hnames part hpart).2.2]
  intro heq
  exact (hnames [] (by rw [heq]; exact List.mem_singleton_self _)).ne_nil rfl

theorem parts_batchOutput (h : PageBelow d input directories name file) (hinput : input.text ≠ "")
    (output : Path) :
    (batchOutput file input output).parts = output.front ++ (directories.map String.toList ++
      [Path.renamed (Path.splitName name.toList).1 notebookExtension.toList]) := by
  obtain ⟨extension, hext, -⟩ := h.exists_extension
  have hempty : (Path.ofParts ((directories ++ [name]).map String.toList)).parts =
      (⟨""⟩ : Path).front ++ (directories ++ [name]).map String.toList := h.parts_relative
  have habsolute : (Path.ofParts ((directories ++ [name]).map String.toList)).isAbsolute = false :=
    Path.isAbsolute_of_parts hempty (by simp) (List.forall_mem_map.mpr h.isNames)
  have hjoin : (output.join (Path.ofParts ((directories ++ [name]).map String.toList))).parts =
      output.front ++ directories.map String.toList ++ [name.toList] := by
    rw [Path.parts_join habsolute, h.parts_relative]
    simp
  have hrelative : file.relativeTo input =
      some (Path.ofParts ((directories ++ [name]).map String.toList)) :=
    h.file_eq ▸ Path.relativeTo_descend hinput h.isNames
  rw [batchOutput, hrelative, Option.getD_some,
    Path.parts_withExtension hjoin h.isName hext (by decide), List.append_assoc]

/-- Two pages share an output exactly if they differ in nothing but their extensions. -/
theorem batchOutput_eq_iff (h : PageBelow d input directories name file)
    (h' : PageBelow d input directories' name' file') (hinput : input.text ≠ "") (output : Path) :
    batchOutput file input output = batchOutput file' input output ↔ file.Alike file' := by
  have htoList : Function.Injective String.toList := fun _ _ => String.toList_injective
  rw [h.alike_iff h' hinput, ← Path.parts_injective.eq_iff, h.parts_batchOutput hinput,
    h'.parts_batchOutput hinput, List.append_cancel_left_eq, List.append_singleton_inj,
    htoList.list_map.eq_iff, Path.renamed_inj (by decide) (by decide)]

/-! Places. -/

theorem place_eq (h : PageBelow d input directories name file) :
    d.place file = d.place input ++ directories ++ [name] := by
  have hparts : file.parts = input.front ++ (directories ++ [name]).map String.toList := by
    rw [h.parts_eq]
    simp
  rw [place_of_parts hparts (by simp) (List.forall_mem_map.mpr h.isNames)]
  simp [Function.comp_def]

theorem place_batchOutput (h : PageBelow d input directories name file) (hinput : input.text ≠ "")
    (hstem : file.stem ≠ some ".") (output : Path) :
    d.place (batchOutput file input output) = d.place output ++ directories ++
      [String.ofList (Path.renamed (Path.splitName name.toList).1 notebookExtension.toList)] := by
  have hdot := h.stem_eq_dot_iff.not.mp hstem
  have hname : Path.IsName (Path.renamed (Path.splitName name.toList).1 notebookExtension.toList) :=
    Path.isName_renamed h.isName hdot (by decide) (by decide) (by decide)
  rw [place_of_parts (h.parts_batchOutput hinput output) (by simp)]
  · simp [Function.comp_def]
  · exact List.forall_mem_append.mpr ⟨List.forall_mem_map.mpr h.isName_directories,
      List.forall_mem_singleton.mpr hname⟩

/-- Two outputs are one file exactly if the pages are alike. -/
theorem place_batchOutput_eq_iff (h : PageBelow d input directories name file)
    (h' : PageBelow d input directories' name' file') (hinput : input.text ≠ "")
    (hstem : file.stem ≠ some ".") (hstem' : file'.stem ≠ some ".") (output : Path) :
    d.place (batchOutput file input output) = d.place (batchOutput file' input output) ↔
      file.Alike file' := by
  rw [h.alike_iff h' hinput, h.place_batchOutput hinput hstem, h'.place_batchOutput hinput hstem',
    List.append_assoc, List.append_assoc, List.append_cancel_left_eq, List.append_singleton_inj,
    String.ofList_inj, Path.renamed_inj (by decide) (by decide)]

/-- No output is a page. -/
theorem place_batchOutput_ne (h : PageBelow d input directories name file)
    (h' : PageBelow d input directories' name' file') (hinput : input.text ≠ "")
    (hstem : file.stem ≠ some ".") (output : Path) :
    d.place file' ≠ d.place (batchOutput file input output) := by
  rw [h'.place_eq, h.place_batchOutput hinput hstem]
  intro heq
  have hname := congrArg String.toList (List.append_singleton_inj.mp heq).2
  rw [String.toList_ofList] at hname
  obtain ⟨extension, hext, hletters⟩ := h'.exists_extension
  obtain ⟨extension', hext', -⟩ := h.exists_extension
  obtain ⟨-, hne, -⟩ := Path.eq_of_splitName_eq_some hext'
  have hdot := h.stem_eq_dot_iff.not.mp hstem
  rw [hname, Path.renamed, if_neg hdot, Path.splitName_dot hne (by decide)] at hext
  obtain rfl := Option.some.inj hext
  exact absurd hletters (by decide)

/-- The output of a page whose stem is a dot would be a directory. -/
theorem stem_ne_dot (h : PageBelow d input directories name file) (hinput : input.text ≠ "")
    {d' : Disk} {output : Path} (hstart : d'.Anchored (d'.start (batchOutput file input output)))
    (hlocate : d'.locate (batchOutput file input output) =
      .ok (d'.place (batchOutput file input output)))
    (hentry : d'.entry? (d'.place (batchOutput file input output)) ≠ some .directory) :
    file.stem ≠ some "." := by
  intro hstem
  have hparts := h.parts_batchOutput hinput output
  rw [Path.renamed, if_pos (h.stem_eq_dot_iff.mp hstem), ← List.append_assoc] at hparts
  exact hentry (entry?_place_of_parts_up hstart hparts hlocate)

end PageBelow

end Project
end MystNotebook
