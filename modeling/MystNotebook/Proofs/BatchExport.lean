import Mathlib.Data.List.Dedup
import MystNotebook.Proofs.BatchOutputs

/-! A batch, page after page in any order. Every page keeps its notebook unless a page that is
exported later shares its output, and without two such pages the files at the end are the same in
every order. -/
namespace MystNotebook.Project
open Disk

variable {mediaType : Path → String} {input output : Path} {options : ExportOptions} {d d' : Disk}
  {order outputs : List Path} {file : Path}

/-! Steps. -/

/-- The places that the pages of a batch are exported to. -/
def outputPlaces (d : Disk) (input output : Path) (order : List Path) (l : Location) : Prop :=
  ∃ file ∈ order, l = d.place (batchOutput file input output)

/-- These places with those on the way to them, where directories are made. -/
def outputWays (d : Disk) (input output : Path) (order : List Path) (l : Location) : Prop :=
  ∃ file ∈ order, d.onWay (batchOutput file input output) l

theorem run_exportFiles_cons
    (h : (exportFiles mediaType input output options (file :: order) : StateM Disk _).run d =
      (⟨outputs, []⟩, d')) :
    ∃ path d₁ rest, (exportTo mediaType file (fun _ => batchOutput file input output) options :
        StateM Disk _).run d = (.ok path, d₁) ∧
      (exportFiles mediaType input output options order : StateM Disk _).run d₁ = (⟨rest, []⟩, d') ∧
      outputs = path :: rest := by
  rw [exportFiles, run_bind] at h
  generalize (exportTo mediaType file (fun _ => batchOutput file input output) options :
    StateM Disk _).run d = step at h ⊢
  obtain ⟨outcome, d₁⟩ := step
  dsimp only at h
  rw [run_bind] at h
  generalize hrest :
    (exportFiles mediaType input output options order : StateM Disk _).run d₁ = tail at h
  obtain ⟨⟨rest, failed⟩, d₂⟩ := tail
  cases outcome with
  | error e => cases h
  | ok path =>
    cases h
    exact ⟨path, d₁, rest, rfl, hrest, rfl⟩

/-- A batch in which every page is exported writes the outputs of the pages, and no other file. -/
theorem keeps_exportFiles
    (h : (exportFiles mediaType input output options order : StateM Disk _).run d =
      (⟨outputs, []⟩, d')) :
    outputs = order.map (batchOutput · input output) ∧
      Keeps (outputPlaces d input output order) (outputWays d input output order) d d' := by
  induction order generalizing d outputs with
  | nil =>
    obtain ⟨hresult, rfl⟩ := Prod.mk.inj h
    exact ⟨(congrArg ExportResult.outputs hresult).symm, Keeps.refl d⟩
  | cons file order ih =>
    obtain ⟨path, d₁, rest, hstep, hrest, rfl⟩ := run_exportFiles_cons h
    obtain ⟨rfl, -⟩ := readBytes_of_exportTo hstep
    obtain ⟨rfl, hkeeps⟩ := ih hrest
    have hfile := keeps_exportTo mediaType file (batchOutput file input output) options d
    rw [hstep] at hfile
    dsimp only at hfile
    refine ⟨rfl, (hfile.mono (fun l hl => ⟨file, List.mem_cons_self, hl⟩)
      fun l hl => ⟨file, List.mem_cons_self, hl⟩).trans (hkeeps.mono ?_ ?_)⟩
    · rintro l ⟨other, hother, hl⟩
      exact ⟨other, List.mem_cons_of_mem _ hother, hl.trans (hfile.place_eq _)⟩
    · rintro l ⟨other, hother, hl⟩
      exact ⟨other, List.mem_cons_of_mem _ hother, hfile.onWay hl⟩

theorem run_exportFiles_append {before after : List Path}
    (h : (exportFiles mediaType input output options (before ++ after) : StateM Disk _).run d =
      (⟨outputs, []⟩, d')) :
    ∃ d₁ first rest, (exportFiles mediaType input output options before : StateM Disk _).run d =
        (⟨first, []⟩, d₁) ∧
      (exportFiles mediaType input output options after : StateM Disk _).run d₁ =
        (⟨rest, []⟩, d') := by
  induction before generalizing d outputs with
  | nil => exact ⟨d, [], outputs, rfl, h⟩
  | cons file before ih =>
    obtain ⟨path, d₁, rest, hstep, hrest, rfl⟩ := run_exportFiles_cons h
    obtain ⟨d₂, first, last, hfirst, hlast⟩ := ih hrest
    refine ⟨d₂, path :: first, last, ?_, hlast⟩
    rw [exportFiles, run_bind, hstep, run_bind, hfirst]
    rfl

/-- Where in a batch a page is exported, and what is there then. -/
theorem run_exportFiles_split {before after : List Path}
    (h : (exportFiles mediaType input output options (before ++ file :: after) :
      StateM Disk _).run d = (⟨outputs, []⟩, d')) :
    ∃ d₁ d₂, Keeps (outputPlaces d input output before) (outputWays d input output before) d d₁ ∧
      Keeps (· = d.place (batchOutput file input output))
        (d.onWay (batchOutput file input output)) d₁ d₂ ∧
      Keeps (outputPlaces d input output after) (outputWays d input output after) d₂ d' ∧
      ∃ notebook, pageNotebook mediaType options d₁ file = some notebook ∧
        d₂.readBytes (batchOutput file input output) = .ok notebook.text.toUTF8 := by
  obtain ⟨d₁, first, rest, hfirst, hrest⟩ := run_exportFiles_append h
  obtain ⟨path, d₂, last, hstep, hlast, rfl⟩ := run_exportFiles_cons hrest
  obtain ⟨-, hbefore⟩ := keeps_exportFiles hfirst
  obtain ⟨-, hafter⟩ := keeps_exportFiles hlast
  obtain ⟨-, hnotebook⟩ := readBytes_of_exportTo hstep
  have hfile := keeps_exportTo mediaType file (batchOutput file input output) options d₁
  rw [hstep] at hfile
  dsimp only at hfile
  refine ⟨d₁, d₂, hbefore, hfile.mono (fun l hl => ?_) fun l => hbefore.onWay,
    hafter.mono (fun l hl => ?_) fun l hl => ?_, hnotebook⟩
  · rw [hl, hbefore.place_eq]
  · obtain ⟨other, hother, hl⟩ := hl
    exact ⟨other, hother, by rw [hl, hfile.place_eq, hbefore.place_eq]⟩
  · obtain ⟨other, hother, hl⟩ := hl
    exact ⟨other, hother, hbefore.onWay (hfile.onWay hl)⟩

/-! Pages of a directory. -/

/-- Page files of a directory, each of them once. -/
structure PagesOf (d : Disk) (input : Path) (files : List Path) : Prop where
  text_ne_empty : input.text ≠ ""
  nodup : files.Nodup
  below : ∀ file ∈ files, ∃ directories name, PageBelow d input directories name file

theorem pagesOf_pageFiles {recursive : Bool} {depth : Nat} {files : List Path} (hd : d.WellFormed)
    (h : (pageFiles recursive (depth + 1) input : StateM Disk _).run d = (.ok files, d')) :
    PagesOf d input files := by
  obtain ⟨names, hlist, -⟩ := run_pageFiles h
  obtain ⟨-, hnodup, hbelow⟩ := collects_pageFiles hd h
  exact ⟨(list_eq_ok hlist).1, hnodup, hbelow⟩

theorem PagesOf.perm {files : List Path} (h : PagesOf d input files) (horder : order.Perm files) :
    PagesOf d input order :=
  ⟨h.text_ne_empty, horder.nodup_iff.mpr h.nodup, fun file hfile =>
    h.below file (horder.mem_iff.mp hfile)⟩

/-- Pages that have a notebook go to a file. -/
theorem PagesOf.stem_ne_dot (hd : d.WellFormed) (hpages : PagesOf d input order)
    (h : (exportFiles mediaType input output options order : StateM Disk _).run d =
      (⟨outputs, []⟩, d'))
    (hfile : file ∈ order) : file.stem ≠ some "." := by
  obtain ⟨before, after, rfl⟩ := List.append_of_mem hfile
  obtain ⟨directories, name, hpage⟩ := hpages.below file hfile
  obtain ⟨d₁, d₂, hbefore, hstep, -, notebook, -, hread⟩ := run_exportFiles_split h
  have hstart := hstep.anchored (hbefore.anchored
    (hd.anchored_start (batchOutput file input output)))
  rw [← hbefore.start_eq, ← hstep.start_eq] at hstart
  obtain ⟨hlocate, hentry⟩ := readBytes_eq_ok_iff.mp hread
  exact hpage.stem_ne_dot hpages.text_ne_empty hstart hlocate (by simp [hentry])

/-- No output is a page that is still to be exported. -/
theorem PagesOf.not_outputPlaces (hd : d.WellFormed) (hpages : PagesOf d input order)
    (h : (exportFiles mediaType input output options order : StateM Disk _).run d =
      (⟨outputs, []⟩, d'))
    (hfile : file ∈ order) : ¬ outputPlaces d input output order (d.place file) := by
  rintro ⟨other, hother, hplace⟩
  obtain ⟨directories, name, hpage⟩ := hpages.below file hfile
  obtain ⟨directories', name', hpage'⟩ := hpages.below other hother
  exact hpage'.place_batchOutput_ne hpage hpages.text_ne_empty (hpages.stem_ne_dot hd h hother)
    output hplace

theorem PagesOf.place_eq_iff (hd : d.WellFormed) (hpages : PagesOf d input order)
    (h : (exportFiles mediaType input output options order : StateM Disk _).run d =
      (⟨outputs, []⟩, d'))
    {file file' : Path} (hfile : file ∈ order) (hfile' : file' ∈ order) :
    d.place (batchOutput file input output) = d.place (batchOutput file' input output) ↔
      file.Alike file' := by
  obtain ⟨directories, name, hpage⟩ := hpages.below file hfile
  obtain ⟨directories', name', hpage'⟩ := hpages.below file' hfile'
  exact hpage.place_batchOutput_eq_iff hpage' hpages.text_ne_empty (hpages.stem_ne_dot hd h hfile)
    (hpages.stem_ne_dot hd h hfile') output

/-- No path to an image of a page leads through what a batch makes or to what it writes. -/
def ImagesApart (d : Disk) (input output : Path) (options : ExportOptions) (files : List Path) :
    Prop :=
  ∀ file ∈ files, ∀ page, pageIn d file = .ok page → ∀ p ∈ imageFiles page file options,
    ∀ l ∈ d.stops p, outputWays d input output files l → d.entry? l = some .directory

section
variable {files : List Path} {l : Location}

theorem outputPlaces.mono (hsub : ∀ file ∈ order, file ∈ files)
    (h : outputPlaces d input output order l) : outputPlaces d input output files l := by
  obtain ⟨file, hfile, hl⟩ := h
  exact ⟨file, hsub file hfile, hl⟩

theorem outputWays.mono (hsub : ∀ file ∈ order, file ∈ files)
    (h : outputWays d input output order l) : outputWays d input output files l := by
  obtain ⟨file, hfile, hl⟩ := h
  exact ⟨file, hsub file hfile, hl⟩

theorem outputPlaces.outputWays (h : outputPlaces d input output order l) :
    outputWays d input output order l := by
  obtain ⟨file, hfile, hl⟩ := h
  exact ⟨file, hfile, _, .self, hl⟩

end

/-- A page keeps its notebook unless a page like it is exported later. -/
theorem PagesOf.readBytes_output (hd : d.WellFormed) {before after : List Path}
    (hpages : PagesOf d input (before ++ file :: after))
    (himages : ImagesApart d input output options (before ++ file :: after))
    (h : (exportFiles mediaType input output options (before ++ file :: after) :
      StateM Disk _).run d = (⟨outputs, []⟩, d')) :
    ∃ notebook, pageNotebook mediaType options d file = some notebook ∧
      ((∀ other ∈ after, ¬ file.Alike other) →
        d'.readBytes (batchOutput file input output) = .ok notebook.text.toUTF8) := by
  have hfile : file ∈ before ++ file :: after := by simp
  have hearlier : ∀ other ∈ before, other ∈ before ++ file :: after := fun other hother => by
    simp [hother]
  have hlater : ∀ other ∈ after, other ∈ before ++ file :: after := fun other hother => by
    simp [hother]
  obtain ⟨directories, name, hpage⟩ := hpages.below file hfile
  obtain ⟨bytes, hbytes⟩ := hpage.exists_readBytes
  obtain ⟨d₁, d₂, hbefore, hstep, hafter, notebook, hnotebook, hread⟩ := run_exportFiles_split h
  have hsame : pageNotebook mediaType options d₁ file = pageNotebook mediaType options d file := by
    refine pageNotebook_eq ?_ fun page hin p hp => hbefore.readBytes_eq fun l hl hchanged => ?_
    · rw [hbytes]
      exact hbefore.readBytes_eq_ok
        (fun hplace => hpages.not_outputPlaces hd h hfile (hplace.mono hearlier)) hbytes
    · exact himages file hfile page hin p hp l hl
        ((hchanged.elim outputPlaces.outputWays id).mono hearlier)
  refine ⟨notebook, hsame ▸ hnotebook, fun hunlike => hafter.readBytes_eq_ok ?_ hread⟩
  rw [hstep.place_eq, hbefore.place_eq]
  rintro ⟨other, hother, hplace⟩
  exact hunlike other hother ((hpages.place_eq_iff hd h hfile (hlater other hother)).mp hplace)

/-! Batches. -/

/-- A run that exports all pages, in some order. -/
structure Batch (mediaType : Path → String) (d : Disk) (input output : Path)
    (options : ExportOptions) (files order outputs : List Path) (d' : Disk) : Prop where
  perm : order.Perm files
  run : (exportFiles mediaType input output options order : StateM Disk _).run d =
    (⟨outputs, []⟩, d')

/-- No two pages have one stem in one directory. -/
def Unlike (files : List Path) : Prop :=
  ∀ file ∈ files, ∀ other ∈ files, file.Alike other → file = other

instance (files : List Path) : Decidable (Unlike files) :=
  inferInstanceAs (Decidable (∀ file ∈ files, ∀ other ∈ files, file.Alike other → file = other))

variable {files : List Path}

theorem ImagesApart.perm (h : ImagesApart d input output options files)
    (horder : order.Perm files) : ImagesApart d input output options order := by
  intro file hfile page hpage p hp l hl hway
  exact h file (horder.mem_iff.mp hfile) page hpage p hp l hl
    (hway.mono fun file => horder.mem_iff.mp)

namespace Batch

theorem outputs_eq (h : Batch mediaType d input output options files order outputs d') :
    outputs = order.map (batchOutput · input output) :=
  (keeps_exportFiles h.run).1

theorem keeps (h : Batch mediaType d input output options files order outputs d') :
    Keeps (outputPlaces d input output files) (outputWays d input output files) d d' :=
  (keeps_exportFiles h.run).2.mono (fun _ hl => hl.mono fun _ => h.perm.mem_iff.mp)
    fun _ hl => hl.mono fun _ => h.perm.mem_iff.mp

theorem exists_notebook (h : Batch mediaType d input output options files order outputs d')
    (hd : d.WellFormed) (hpages : PagesOf d input files)
    (himages : ImagesApart d input output options files) {before after : List Path}
    (horder : order = before ++ file :: after) :
    ∃ notebook, pageNotebook mediaType options d file = some notebook ∧
      ((∀ other ∈ after, ¬ file.Alike other) →
        d'.readBytes (batchOutput file input output) = .ok notebook.text.toUTF8) := by
  have hpages := hpages.perm h.perm
  have himages := himages.perm h.perm
  have hrun := h.run
  subst horder
  exact hpages.readBytes_output hd himages hrun

/-- Without two pages alike, every page has its notebook at the end. -/
theorem exists_notebook_of_unlike
    (h : Batch mediaType d input output options files order outputs d') (hd : d.WellFormed)
    (hpages : PagesOf d input files)
    (himages : ImagesApart d input output options files) (hunlike : Unlike files)
    (hfile : file ∈ files) :
    ∃ notebook, pageNotebook mediaType options d file = some notebook ∧
      d'.readBytes (batchOutput file input output) = .ok notebook.text.toUTF8 := by
  obtain ⟨before, after, horder⟩ := List.append_of_mem (h.perm.mem_iff.mpr hfile)
  obtain ⟨notebook, hnotebook, hread⟩ := h.exists_notebook hd hpages himages horder
  refine ⟨notebook, hnotebook, hread fun other hother halike => ?_⟩
  have hmem : other ∈ files := h.perm.mem_iff.mp (by simp [horder, hother])
  obtain rfl := hunlike file hfile other hmem halike
  have hnodup := h.perm.nodup_iff.mpr hpages.nodup
  rw [horder] at hnodup
  exact (List.nodup_cons.mp (List.nodup_append.mp hnodup).2.1).1 hother

/-- There are as many files as outputs exactly if no two pages are alike. -/
theorem card_places_iff (h : Batch mediaType d input output options files order outputs d')
    (hd : d.WellFormed) (hpages : PagesOf d input files) :
    (outputs.map d'.place).dedup.length = outputs.length ↔ Unlike files := by
  have hpages := hpages.perm h.perm
  have hplaces : outputs.map d'.place =
      order.map fun file => d.place (batchOutput file input output) := by
    simp only [h.outputs_eq, List.map_map, Function.comp_def, h.keeps.place_eq]
  rw [← List.length_map d'.place, (List.dedup_sublist _).length_eq, List.dedup_eq_self, hplaces,
    List.nodup_map_iff_inj_on hpages.nodup]
  constructor
  · intro hinj file hfile other hother halike
    have hfile := h.perm.mem_iff.mpr hfile
    have hother := h.perm.mem_iff.mpr hother
    exact hinj file hfile other hother ((hpages.place_eq_iff hd h.run hfile hother).mpr halike)
  · intro hunlike file hfile other hother hplace
    exact hunlike file (h.perm.mem_iff.mp hfile) other (h.perm.mem_iff.mp hother)
      ((hpages.place_eq_iff hd h.run hfile hother).mp hplace)

/-- Without two pages alike, the files are the same at the end of every batch. -/
theorem file_iff_of_unlike {order₁ order₂ outputs₁ outputs₂ : List Path} {d₁ d₂ : Disk}
    (h₁ : Batch mediaType d input output options files order₁ outputs₁ d₁)
    (h₂ : Batch mediaType d input output options files order₂ outputs₂ d₂)
    (hd : d.WellFormed) (hpages : PagesOf d input files)
    (himages : ImagesApart d input output options files) (hunlike : Unlike files) (l : Location)
    (bytes : ByteArray) :
    d₁.entry? l = some (.file bytes) ↔ d₂.entry? l = some (.file bytes) := by
  by_cases hl : outputPlaces d input output files l
  · obtain ⟨file, hfile, hl⟩ := hl
    obtain ⟨notebook, hnotebook, hread₁⟩ :=
      h₁.exists_notebook_of_unlike hd hpages himages hunlike hfile
    obtain ⟨notebook', hnotebook', hread₂⟩ :=
      h₂.exists_notebook_of_unlike hd hpages himages hunlike hfile
    obtain rfl := Option.some.inj (hnotebook.symm.trans hnotebook')
    have hentry₁ := (readBytes_eq_ok_iff.mp hread₁).2
    have hentry₂ := (readBytes_eq_ok_iff.mp hread₂).2
    rw [h₁.keeps.place_eq, ← hl] at hentry₁
    rw [h₂.keeps.place_eq, ← hl] at hentry₂
    rw [hentry₁, hentry₂]
  · rw [h₁.keeps.file l hl, h₂.keeps.file l hl]

end Batch

/-- An export of a directory that exports all pages is a batch, in the order of their paths, on the
disk with the directories for the output. -/
theorem batch_of_exportDirectory {recursive : Bool} (hd : d.WellFormed)
    (h : (exportDirectory mediaType input output recursive options : StateM Disk _).run d =
      (.ok ⟨outputs, []⟩, d')) :
    ∃ d₀ files, (∀ written, Keeps written (d.onWay output) d d₀) ∧ d₀.WellFormed ∧
      (pageFiles recursive directoryDepth input : StateM Disk _).run d₀ = (.ok files, d₀) ∧
      Batch mediaType d₀ input output
        { options with sourceRoot := some (options.sourceRoot.getD input) } files
        (files.mergeSort Path.le) outputs d' := by
  have hkeeps := fun written => makesTo_ensureTree output.text.length output written d
  have hthere : (Storage.isDirectory input : StateM Disk _).run d =
      ((d.find input).toOption.map Entry.kind == some .directory, d) := rfl
  rw [exportDirectory, run_bind, hthere] at h
  dsimp only at h
  split at h
  · cases h
  · rw [Storage.ensureDirectories, run_bind] at h
    generalize (Storage.ensureTree output.text.length output : StateM Disk _).run d = made
      at h hkeeps
    obtain ⟨_ | _, d₀⟩ := made
    · cases h
    · dsimp only at h hkeeps
      have hd₀ := (hkeeps fun _ => False).wellFormed hd
      rw [run_bind] at h
      generalize hfiles : (pageFiles recursive directoryDepth input : StateM Disk _).run d₀ = found
        at h
      obtain ⟨_ | files, d₁⟩ := found
      · cases h
      · obtain ⟨rfl, -, -⟩ := collects_pageFiles hd₀ hfiles
        dsimp only at h
        rw [run_bind] at h
        generalize hrun : (exportFiles mediaType input output
          { options with sourceRoot := some (options.sourceRoot.getD input) }
          (files.mergeSort Path.le) : StateM Disk _).run d₁ = result at h
        obtain ⟨result, d₂⟩ := result
        cases h
        exact ⟨d₁, files, hkeeps, hd₀, hfiles, List.mergeSort_perm _ _, hrun⟩

end MystNotebook.Project
