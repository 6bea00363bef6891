import Mathlib.Data.List.Permutation
import Mathlib.Data.Option.Basic
import MystNotebook.Project.MediaType
import MystNotebook.Proofs.BatchExport

/-! Batches that export all of their pages. Pages that load and whose outputs can be written are all
exported in every order, since no export takes from another what it needs. -/
namespace MystNotebook

namespace Disk

variable {d : Disk} {p : Path}

theorem writeFile_eq {l : Location} (hend : endsWithSlash p = false) (hlocate : d.locate p = .ok l)
    (hentry : d.entry? l ≠ some .directory) (s : String) :
    d.writeFile p s = .ok (d.set l (.file s.toUTF8)) := by
  rw [writeFile, hend, if_neg Bool.false_ne_true, hlocate]
  simp only [bind, Except.bind]

theorem run_makeDirectory_of_there (hend : endsWithSlash p = false) {e : Entry}
    (hfind : d.find p = .ok e) :
    (Storage.makeDirectory p : StateM Disk _).run d = (.error .alreadyExists, d) := by
  obtain ⟨hlocate, hentry⟩ := find_eq_ok_iff.mp hfind
  have hmake : d.makeDirectory p = .error .alreadyExists := by
    rw [makeDirectory, hend, if_neg Bool.false_ne_true, hlocate]
    simp only [bind, Except.bind, hentry]
  change change (·.makeDirectory p) d = _
  unfold change
  simp only [hmake]

theorem run_isDirectory (hfind : d.find p = .ok .directory) :
    (Storage.isDirectory p : StateM Disk _).run d = (true, d) := by
  change ((d.find p).toOption.map Entry.kind == some .directory, d) = _
  rw [hfind]
  rfl

/-- Nothing is made on the way to a directory that is there. -/
theorem run_ensureTree_of_there (hend : endsWithSlash p = false)
    (hfind : d.find p = .ok .directory) (depth : Nat) :
    (Storage.ensureTree depth p : StateM Disk _).run d = (.ok (), d) := by
  have hmake := run_makeDirectory_of_there hend hfind
  have hthere := run_isDirectory hfind
  cases depth with
  | zero =>
    rw [Storage.ensureTree, Storage.ensureDirectory, run_bind, hmake]
    dsimp only
    rw [run_bind, hthere]
    rfl
  | succ depth =>
    rw [Storage.ensureTree]
    split
    · rfl
    · rw [run_bind, hmake]
      dsimp only
      rw [run_bind, hthere]
      rfl

end Disk

namespace Project
open Disk

variable {input output : Path} {options : ExportOptions} {d d' : Disk} {order outputs : List Path}
  {file : Path}

theorem pageIn_of_find {text : String} {page : Page} (hfind : d.find file = .ok (.file text.toUTF8))
    (hpage : readPage text = .ok page) : pageIn d file = .ok page := by
  have hread := readBytes_eq_ok_iff.mpr (find_eq_ok_iff.mp hfind)
  have htext : String.fromUTF8? text.toUTF8 = some text := dif_pos text.isValidUTF8
  rw [pageIn, run_loadPage, hread]
  simp only [Except.bind, htext, Option.elim_some, Except.mapError, hpage]

/-- A page that loads, with an output that can be written in a directory that is there. -/
structure Ready (d : Disk) (input output file : Path) : Prop where
  loads : ∃ page, pageIn d file = .ok page
  parent : ∃ parent, (batchOutput file input output).parent = some parent ∧
    endsWithSlash parent = false ∧ d.find parent = .ok .directory
  noSlash : endsWithSlash (batchOutput file input output) = false
  locates : d.locate (batchOutput file input output) =
    .ok (d.place (batchOutput file input output))
  free : d.entry? (d.place (batchOutput file input output)) ≠ some .directory

/-- The export of such a page changes its output and the log. -/
theorem run_exportTo_of_ready (mediaType : Path → String) (h : Ready d input output file)
    (options : ExportOptions) :
    ∃ bytes log, (exportTo mediaType file (fun _ => batchOutput file input output) options :
      StateM Disk _).run d = (.ok (batchOutput file input output),
        Disk.set { d with log := log } (d.place (batchOutput file input output))
          (.file bytes)) := by
  obtain ⟨page, hpage⟩ := h.loads
  obtain ⟨parent, hparent, hend, hfind⟩ := h.parent
  obtain ⟨log, hrender⟩ := run_renderPage mediaType page file options d
  generalize (Notebook.ofDocument _ _ _).1 = notebook at hrender
  have hmake : (ensureParent (batchOutput file input output) : StateM Disk _).run
      { d with log := log } = (.ok (), { d with log := log }) := by
    rw [ensureParent, hparent]
    dsimp only
    split
    · rfl
    · exact run_ensureTree_of_there hend ((find_log d log parent).trans hfind) _
  have hwrite := run_write_of_ok (writeFile_eq h.noSlash ((locate_log d log _).trans h.locates)
    h.free notebook.text)
  refine ⟨notebook.text.toUTF8, log, ?_⟩
  rw [exportTo, run_bind, run_loadPage_eq, hpage]
  dsimp only
  rw [run_bind, hrender]
  dsimp only
  rw [run_bind, writeNotebook, run_bind, hmake]
  dsimp only
  rw [run_bind, hwrite]
  rfl

theorem keeps_set_log {p : Path} {l : Location} (hlocate : d.locate p = .ok l)
    (hl : d.entry? l ≠ some .directory) (bytes : ByteArray) (log : List (LogLevel × String)) :
    Keeps (· = l) (fun _ => False) d (Disk.set { d with log := log } l (.file bytes)) :=
  (keeps_log d log).trans
    (keeps_set (d := { d with log := log }) ((locate_log d log p).trans hlocate) hl bytes)

/-- A page stays ready while others are exported. -/
theorem Ready.after {other p : Path} (h : Ready d input output other) {l : Location}
    (hlocate : d.locate p = .ok l) (hl : d.entry? l ≠ some .directory) (bytes : ByteArray)
    (log : List (LogLevel × String)) (hother : d.place other ≠ l)
    (hread : ∃ bytes, d.readBytes other = .ok bytes) :
    Ready (Disk.set { d with log := log } l (.file bytes)) input output other := by
  have hkeeps := keeps_set_log hlocate hl bytes log
  obtain ⟨page, hpage⟩ := h.loads
  obtain ⟨parent, hparent, hend, hfind⟩ := h.parent
  obtain ⟨bytes', hread⟩ := hread
  have hnil : l ≠ [] := fun h => hl (h ▸ d.entry?_nil)
  refine ⟨⟨page, ?_⟩, ⟨parent, hparent, hend, ?_⟩, h.noSlash, ?_, ?_⟩
  · rw [pageIn_eq_of_readBytes ((hkeeps.readBytes_eq_ok hother hread).trans hread.symm), hpage]
  · rw [find_eq_ok_iff] at hfind ⊢
    rw [hkeeps.place_eq]
    exact ⟨hkeeps.locate hfind.1, hkeeps.directory _ hfind.2⟩
  · rw [hkeeps.place_eq]
    exact hkeeps.locate h.locates
  · rw [hkeeps.place_eq, entry?_set hnil]
    split
    · simp
    · exact h.free

theorem Ready.stem_ne_dot (hd : d.WellFormed) (hpages : PagesOf d input order)
    (h : Ready d input output file) (hfile : file ∈ order) : file.stem ≠ some "." := by
  obtain ⟨directories, name, hpage⟩ := hpages.below file hfile
  exact hpage.stem_ne_dot hpages.text_ne_empty (hd.anchored_start _) h.locates h.free

theorem PagesOf.keeps {written made : Location → Prop} (hpages : PagesOf d input order)
    (h : Keeps written made d d') (hwritten : ∀ file ∈ order, ¬ written (d.place file)) :
    PagesOf d' input order := by
  refine ⟨hpages.text_ne_empty, hpages.nodup, fun file hfile => ?_⟩
  obtain ⟨directories, name, hpage⟩ := hpages.below file hfile
  obtain ⟨bytes, hread⟩ := hpage.exists_readBytes
  exact ⟨directories, name, hpage.file_eq, hpage.isName_directories, hpage.isName, hpage.isPage,
    bytes, h.readBytes_eq_ok (hwritten file hfile) hread⟩

theorem exists_run_of_ready (mediaType : Path → String) (hpages : PagesOf d input order)
    (hstem : ∀ file ∈ order, file.stem ≠ some ".")
    (hready : ∀ file ∈ order, Ready d input output file) (options : ExportOptions) :
    ∃ outputs d', (exportFiles mediaType input output options order : StateM Disk _).run d =
      (⟨outputs, []⟩, d') := by
  induction order generalizing d with
  | nil => exact ⟨[], d, rfl⟩
  | cons file order ih =>
    have hfile := hready file List.mem_cons_self
    obtain ⟨bytes, log, hstep⟩ := run_exportTo_of_ready mediaType hfile options
    have hkeeps := keeps_set_log hfile.locates hfile.free bytes log
    have hother : ∀ other ∈ file :: order,
        d.place other ≠ d.place (batchOutput file input output) := fun other hother => by
      obtain ⟨directories, name, hpage⟩ := hpages.below file List.mem_cons_self
      obtain ⟨directories', name', hpage'⟩ := hpages.below other hother
      exact hpage.place_batchOutput_ne hpage' hpages.text_ne_empty
        (hstem file List.mem_cons_self) output
    have hnext := hpages.keeps hkeeps hother
    have hafter : ∀ other ∈ order, Ready _ input output other := fun other hmem => by
      have hmem := List.mem_cons_of_mem file hmem
      obtain ⟨directories, name, hpage⟩ := hpages.below other hmem
      exact (hready other hmem).after hfile.locates hfile.free bytes log
        (hother other hmem) hpage.exists_readBytes
    obtain ⟨outputs, d', hrest⟩ := ih
      ⟨hnext.text_ne_empty, (List.nodup_cons.mp hnext.nodup).2, fun other hmem =>
        hnext.below other (List.mem_cons_of_mem _ hmem)⟩
      (fun other hmem => hstem other (List.mem_cons_of_mem _ hmem)) hafter
    refine ⟨batchOutput file input output :: outputs, d', ?_⟩
    rw [exportFiles, run_bind, hstep, run_bind, hrest]
    rfl

/-- If all pages are ready, a batch in any order exports all of them. -/
theorem exists_batch (mediaType : Path → String) (hd : d.WellFormed) {files : List Path}
    (hpages : PagesOf d input files) (hready : ∀ file ∈ files, Ready d input output file)
    (options : ExportOptions) (horder : order.Perm files) :
    ∃ outputs d', Batch mediaType d input output options files order outputs d' := by
  have hready := fun file hfile => hready file (horder.mem_iff.mp hfile)
  have hpages := hpages.perm horder
  obtain ⟨outputs, d', hrun⟩ := exists_run_of_ready mediaType hpages
    (fun file hfile => (hready file hfile).stem_ne_dot hd hpages hfile) hready options
  exact ⟨outputs, d', horder, hrun⟩

/-- A batch loses pages only to others like them. Outputs are shared by the pages that differ in
nothing but their extensions. Whatever the order, a page that no page like it follows has its own
notebook at the end, no file but the outputs changes, and there are as many notebooks as successes
exactly if no two pages are alike; then the files at the end do not depend on the order. -/
theorem exportFiles_keepsPages (mediaType : Path → String) {recursive : Bool} {files : List Path}
    (hd : d.WellFormed)
    (hfiles : (pageFiles recursive directoryDepth input : StateM Disk _).run d = (.ok files, d))
    (himages : ImagesApart d input output options files) :
    (∀ file ∈ files, ∀ other ∈ files,
      batchOutput file input output = batchOutput other input output ↔ file.Alike other) ∧
    (∀ order outputs d', Batch mediaType d input output options files order outputs d' →
      outputs = order.map (batchOutput · input output) ∧
      (∀ before file after, order = before ++ file :: after →
        (∀ other ∈ after, ¬ file.Alike other) →
        ∃ notebook, pageNotebook mediaType options d file = some notebook ∧
          d'.readBytes (batchOutput file input output) = .ok notebook.text.toUTF8) ∧
      (∀ l, ¬ outputPlaces d input output files l → ∀ bytes,
        d'.entry? l = some (.file bytes) ↔ d.entry? l = some (.file bytes)) ∧
      ((outputs.map d'.place).dedup.length = outputs.length ↔ Unlike files)) ∧
    (Unlike files → ∀ order₁ outputs₁ d₁ order₂ outputs₂ d₂,
      Batch mediaType d input output options files order₁ outputs₁ d₁ →
      Batch mediaType d input output options files order₂ outputs₂ d₂ →
      (∀ file ∈ files, ∃ notebook, pageNotebook mediaType options d file = some notebook ∧
        d₁.readBytes (batchOutput file input output) = .ok notebook.text.toUTF8) ∧
      ∀ l bytes, d₁.entry? l = some (.file bytes) ↔ d₂.entry? l = some (.file bytes)) := by
  have hpages := pagesOf_pageFiles hd hfiles
  refine ⟨fun file hfile other hother => ?_, fun order outputs d' h => ?_, ?_⟩
  · obtain ⟨directories, name, hpage⟩ := hpages.below file hfile
    obtain ⟨directories', name', hpage'⟩ := hpages.below other hother
    exact hpage.batchOutput_eq_iff hpage' hpages.text_ne_empty output
  · refine ⟨h.outputs_eq, fun before file after horder hlater => ?_, h.keeps.file,
      h.card_places_iff hd hpages⟩
    obtain ⟨notebook, hnotebook, hread⟩ := h.exists_notebook hd hpages himages horder
    exact ⟨notebook, hnotebook, hread hlater⟩
  · intro hunlike order₁ outputs₁ d₁ order₂ outputs₂ d₂ h₁ h₂
    exact ⟨fun file hfile => h₁.exists_notebook_of_unlike hd hpages himages hunlike hfile,
      h₁.file_iff_of_unlike h₂ hd hpages himages hunlike⟩

/-! Two pages with an image. -/

def emptyText : String := "\x7b\"type\":\"root\"\x7d"

def pictureText : String :=
  "\x7b\"type\":\"root\",\"children\":[\x7b\"type\":\"image\",\"url\":\"x.png\"\x7d]\x7d"

theorem readPage_emptyText : readPage emptyText = .ok ⟨{}, []⟩ := by cbv

theorem readPage_pictureText :
    readPage pictureText = .ok ⟨{}, [.leaf (.image { url := "x.png" })]⟩ := by cbv

/-- Two pages in a directory with an image, which one of them embeds. -/
def twoPages : Disk where
  entries := [(["in"], .directory), (["in", "a.json"], .file pictureText.toUTF8),
    (["in", "b.JSON"], .file emptyText.toUTF8), (["in", "x.png"], .file ⟨#[1]⟩),
    (["out"], .directory)]
  workingDirectory := []

theorem find_twoPages_picture : twoPages.find ⟨"in/a.json"⟩ = .ok (.file pictureText.toUTF8) :=
  find_of_walk (by decide) (by cbv) (by decide) rfl rfl

theorem find_twoPages_empty : twoPages.find ⟨"in/b.JSON"⟩ = .ok (.file emptyText.toUTF8) :=
  find_of_walk (by decide) (by cbv) (by decide) rfl rfl

theorem find_twoPages_out : twoPages.find ⟨"out"⟩ = .ok .directory :=
  find_of_walk (by decide) (by cbv) (by decide) rfl rfl

theorem pageFiles_twoPages : (pageFiles false directoryDepth ⟨"in"⟩ : StateM Disk _).run twoPages =
    (.ok [⟨"in/a.json"⟩, ⟨"in/b.JSON"⟩], twoPages) := by
  have himage : twoPages.find ⟨"in/x.png"⟩ = .ok (.file ⟨#[1]⟩) :=
    find_of_walk (by decide) (by cbv) (by decide) rfl rfl
  have hlist : twoPages.list ⟨"in"⟩ = .ok ["a.json", "b.JSON", "x.png"] := by
    rw [list, locate_eq (by decide) (by cbv) (by decide)]
    rfl
  have hnames : ∀ name ∈ ["a.json", "b.JSON", "x.png"],
      ∃ bytes, twoPages.find ((⟨"in"⟩ : Path).join ⟨name⟩) = .ok (.file bytes) := by
    simp only [List.forall_mem_cons]
    exact ⟨⟨_, find_twoPages_picture⟩, ⟨_, find_twoPages_empty⟩, ⟨_, himage⟩, by simp⟩
  have hpages : (["a.json", "b.JSON", "x.png"].map fun name =>
      (⟨"in"⟩ : Path).join ⟨name⟩).filter isPageFile = [⟨"in/a.json"⟩, ⟨"in/b.JSON"⟩] := by decide
  rw [directoryDepth, run_pageFiles_of_files hlist hnames, hpages]

theorem not_outputWays_twoPages : ¬ outputWays twoPages ⟨"in"⟩ ⟨"out"⟩
    [⟨"in/a.json"⟩, ⟨"in/b.JSON"⟩] ["in", "x.png"] := by
  have hout : ¬ twoPages.onWay ⟨"out"⟩ ["in", "x.png"] :=
    not_onWay_of_parent (by decide) fun top htop => by
      obtain rfl : ⟨""⟩ = top := Option.some.inj htop
      exact not_onWay_of_parent (by decide) fun _ hnone => by cases hnone
  have hparents : ∀ file ∈ [(⟨"in/a.json"⟩ : Path), ⟨"in/b.JSON"⟩],
      ["in", "x.png"] ≠ twoPages.place (batchOutput file ⟨"in"⟩ ⟨"out"⟩) ∧
        (batchOutput file ⟨"in"⟩ ⟨"out"⟩).parent = some ⟨"out"⟩ := by decide
  rintro ⟨file, hfile, hway⟩
  obtain ⟨hplace, hparent⟩ := hparents file hfile
  refine not_onWay_of_parent hplace (fun parent heq => ?_) hway
  obtain rfl := Option.some.inj (hparent.symm.trans heq)
  exact hout

theorem imagesApart_twoPages : ImagesApart twoPages ⟨"in"⟩ ⟨"out"⟩ { images := .attachment }
    [⟨"in/a.json"⟩, ⟨"in/b.JSON"⟩] := by
  have hpicture := pageIn_of_find find_twoPages_picture readPage_pictureText
  have hempty := pageIn_of_find find_twoPages_empty readPage_emptyText
  have himages : imageFiles ⟨{}, [.leaf (.image { url := "x.png" })]⟩ ⟨"in/a.json"⟩
      { images := .attachment } = [⟨"in/x.png"⟩] := by decide
  have hnone : imageFiles ⟨{}, []⟩ ⟨"in/b.JSON"⟩ { images := .attachment } = [] := by decide
  have hstops : twoPages.stops ⟨"in/x.png"⟩ = [[], ["in"], ["in", "x.png"]] := by decide
  simp only [ImagesApart, List.forall_mem_cons]
  refine ⟨fun page hpage p hp => ?_, fun page hpage p hp => ?_, by simp⟩
  · obtain rfl := Except.ok.inj (hpicture.symm.trans hpage)
    rw [himages, List.mem_singleton] at hp
    subst hp
    simp only [hstops, List.forall_mem_cons]
    exact ⟨fun _ => rfl, fun _ => rfl, fun hway => absurd hway not_outputWays_twoPages, by simp⟩
  · obtain rfl := Except.ok.inj (hempty.symm.trans hpage)
    simp [hnone] at hp

theorem ready_twoPages : ∀ file ∈ [(⟨"in/a.json"⟩ : Path), ⟨"in/b.JSON"⟩],
    Ready twoPages ⟨"in"⟩ ⟨"out"⟩ file := by
  have hpicture : batchOutput ⟨"in/a.json"⟩ ⟨"in"⟩ ⟨"out"⟩ = ⟨"out/a.ipynb"⟩ := by decide
  have hempty : batchOutput ⟨"in/b.JSON"⟩ ⟨"in"⟩ ⟨"out"⟩ = ⟨"out/b.ipynb"⟩ := by decide
  simp only [List.forall_mem_cons]
  refine ⟨⟨⟨_, pageIn_of_find find_twoPages_picture readPage_pictureText⟩,
    ⟨⟨"out"⟩, by decide, by decide, find_twoPages_out⟩, by decide, ?_, by decide⟩,
    ⟨⟨_, pageIn_of_find find_twoPages_empty readPage_emptyText⟩,
    ⟨⟨"out"⟩, by decide, by decide, find_twoPages_out⟩, by decide, ?_, by decide⟩, by simp⟩
  · rw [hpicture, locate_eq (by decide) (by cbv) (by decide)]
    rfl
  · rw [hempty, locate_eq (by decide) (by cbv) (by decide)]
    rfl

theorem exportFiles_keepsPages_twoPages :
    twoPages.WellFormed ∧
      (pageFiles false directoryDepth ⟨"in"⟩ : StateM Disk _).run twoPages =
        (.ok [⟨"in/a.json"⟩, ⟨"in/b.JSON"⟩], twoPages) ∧
      ImagesApart twoPages ⟨"in"⟩ ⟨"out"⟩ { images := .attachment }
        [⟨"in/a.json"⟩, ⟨"in/b.JSON"⟩] ∧
      ∃ outputs d', Batch MediaType.ofPath twoPages ⟨"in"⟩ ⟨"out"⟩ { images := .attachment }
          [⟨"in/a.json"⟩, ⟨"in/b.JSON"⟩] [⟨"in/b.JSON"⟩, ⟨"in/a.json"⟩] outputs d' ∧
        outputs = [⟨"out/b.ipynb"⟩, ⟨"out/a.ipynb"⟩] ∧
        (outputs.map d'.place).dedup.length = 2 ∧
        ∃ notebook, pageNotebook MediaType.ofPath { images := .attachment } twoPages ⟨"in/a.json"⟩ =
            some notebook ∧
          d'.readBytes ⟨"out/a.ipynb"⟩ = .ok notebook.text.toUTF8 := by
  have hd : twoPages.WellFormed := ⟨by decide, by decide, by decide, rfl⟩
  have houtputsOf : [(⟨"in/b.JSON"⟩ : Path), ⟨"in/a.json"⟩].map (batchOutput · ⟨"in"⟩ ⟨"out"⟩) =
      [⟨"out/b.ipynb"⟩, ⟨"out/a.ipynb"⟩] := by decide
  obtain ⟨outputs, d', hbatch⟩ := exists_batch MediaType.ofPath hd
    (pagesOf_pageFiles hd pageFiles_twoPages) ready_twoPages { images := .attachment }
    (List.Perm.swap _ _ _)
  obtain ⟨-, hbatches, hunlike⟩ :=
    exportFiles_keepsPages MediaType.ofPath hd pageFiles_twoPages imagesApart_twoPages
  obtain ⟨houtputs, -, -, hcount⟩ := hbatches _ _ _ hbatch
  have hnone : Unlike [(⟨"in/a.json"⟩ : Path), ⟨"in/b.JSON"⟩] := by decide
  obtain ⟨hnotebooks, -⟩ := hunlike hnone _ _ _ _ _ _ hbatch hbatch
  refine ⟨hd, pageFiles_twoPages, imagesApart_twoPages, outputs, d', hbatch,
    houtputs.trans houtputsOf, ?_, hnotebooks ⟨"in/a.json"⟩ List.mem_cons_self⟩
  rw [hcount.mpr hnone, houtputs]
  rfl

/-! Two pages that are alike. -/

def breakText : String :=
  "\x7b\"type\":\"root\",\"children\":[\x7b\"type\":\"thematicBreak\"\x7d]\x7d"

theorem readPage_breakText : readPage breakText = .ok ⟨{}, [.leaf .thematicBreak]⟩ := by cbv

/-- Two pages whose extensions differ in the case of their letters. -/
def alikePages : Disk where
  entries := [(["in"], .directory), (["in", "a.json"], .file emptyText.toUTF8),
    (["in", "a.JSON"], .file breakText.toUTF8), (["out"], .directory)]
  workingDirectory := []

theorem find_alikePages_empty : alikePages.find ⟨"in/a.json"⟩ = .ok (.file emptyText.toUTF8) :=
  find_of_walk (by decide) (by cbv) (by decide) rfl rfl

theorem find_alikePages_break : alikePages.find ⟨"in/a.JSON"⟩ = .ok (.file breakText.toUTF8) :=
  find_of_walk (by decide) (by cbv) (by decide) rfl rfl

theorem pageFiles_alikePages :
    (pageFiles false directoryDepth ⟨"in"⟩ : StateM Disk _).run alikePages =
      (.ok [⟨"in/a.json"⟩, ⟨"in/a.JSON"⟩], alikePages) := by
  have hlist : alikePages.list ⟨"in"⟩ = .ok ["a.json", "a.JSON"] := by
    rw [list, locate_eq (by decide) (by cbv) (by decide)]
    rfl
  have hnames : ∀ name ∈ ["a.json", "a.JSON"],
      ∃ bytes, alikePages.find ((⟨"in"⟩ : Path).join ⟨name⟩) = .ok (.file bytes) := by
    simp only [List.forall_mem_cons]
    exact ⟨⟨_, find_alikePages_empty⟩, ⟨_, find_alikePages_break⟩, by simp⟩
  have hpages : (["a.json", "a.JSON"].map fun name =>
      (⟨"in"⟩ : Path).join ⟨name⟩).filter isPageFile = [⟨"in/a.json"⟩, ⟨"in/a.JSON"⟩] := by decide
  rw [directoryDepth, run_pageFiles_of_files hlist hnames, hpages]

theorem batchOutput_alikePages : ∀ file ∈ [(⟨"in/a.json"⟩ : Path), ⟨"in/a.JSON"⟩],
    batchOutput file ⟨"in"⟩ ⟨"out"⟩ = ⟨"out/a.ipynb"⟩ := by decide

theorem ready_alikePages : ∀ file ∈ [(⟨"in/a.json"⟩ : Path), ⟨"in/a.JSON"⟩],
    Ready alikePages ⟨"in"⟩ ⟨"out"⟩ file := by
  have hout : alikePages.find ⟨"out"⟩ = .ok .directory :=
    find_of_walk (by decide) (by cbv) (by decide) rfl rfl
  have hlocate : alikePages.locate ⟨"out/a.ipynb"⟩ = .ok (alikePages.place ⟨"out/a.ipynb"⟩) := by
    rw [locate_eq (by decide) (by cbv) (by decide)]
    rfl
  have hpages : ∀ file ∈ [(⟨"in/a.json"⟩ : Path), ⟨"in/a.JSON"⟩],
      ∃ page, pageIn alikePages file = .ok page := by
    simp only [List.forall_mem_cons]
    exact ⟨⟨_, pageIn_of_find find_alikePages_empty readPage_emptyText⟩,
      ⟨_, pageIn_of_find find_alikePages_break readPage_breakText⟩, by simp⟩
  intro file hfile
  have houtput := batchOutput_alikePages file hfile
  refine ⟨hpages file hfile, ?_, ?_, ?_, ?_⟩ <;> rw [houtput]
  · exact ⟨⟨"out"⟩, by decide, by decide, hout⟩
  · decide
  · exact hlocate
  · decide

/-- Both are collected and exported, to one file; what it holds depends on the order. -/
theorem exportFiles_alikePages :
    (pageFiles false directoryDepth ⟨"in"⟩ : StateM Disk _).run alikePages =
        (.ok [⟨"in/a.json"⟩, ⟨"in/a.JSON"⟩], alikePages) ∧
      batchOutput ⟨"in/a.json"⟩ ⟨"in"⟩ ⟨"out"⟩ = batchOutput ⟨"in/a.JSON"⟩ ⟨"in"⟩ ⟨"out"⟩ ∧
      ∃ outputs₁ d₁ outputs₂ d₂,
        Batch MediaType.ofPath alikePages ⟨"in"⟩ ⟨"out"⟩ {} [⟨"in/a.json"⟩, ⟨"in/a.JSON"⟩]
          [⟨"in/a.json"⟩, ⟨"in/a.JSON"⟩] outputs₁ d₁ ∧
        Batch MediaType.ofPath alikePages ⟨"in"⟩ ⟨"out"⟩ {} [⟨"in/a.json"⟩, ⟨"in/a.JSON"⟩]
          [⟨"in/a.JSON"⟩, ⟨"in/a.json"⟩] outputs₂ d₂ ∧
        outputs₁.length = 2 ∧ (outputs₁.map d₁.place).dedup.length = 1 ∧
        d₁.readBytes ⟨"out/a.ipynb"⟩ ≠ d₂.readBytes ⟨"out/a.ipynb"⟩ := by
  have hd : alikePages.WellFormed := ⟨by decide, by decide, by decide, rfl⟩
  have hempty := pageIn_of_find find_alikePages_empty readPage_emptyText
  have hbreak := pageIn_of_find find_alikePages_break readPage_breakText
  have hpages := pagesOf_pageFiles hd pageFiles_alikePages
  have himages : ImagesApart alikePages ⟨"in"⟩ ⟨"out"⟩ {} [⟨"in/a.json"⟩, ⟨"in/a.JSON"⟩] := by
    simp only [ImagesApart, List.forall_mem_cons]
    refine ⟨fun page hpage p hp => ?_, fun page hpage p hp => ?_, by simp⟩
    · obtain rfl := Except.ok.inj (hempty.symm.trans hpage)
      cases hp
    · obtain rfl := Except.ok.inj (hbreak.symm.trans hpage)
      cases hp
  have houtEmpty := batchOutput_alikePages ⟨"in/a.json"⟩ (by simp)
  have houtBreak := batchOutput_alikePages ⟨"in/a.JSON"⟩ (by simp)
  obtain ⟨outputs₁, d₁, h₁⟩ := exists_batch MediaType.ofPath hd hpages ready_alikePages {} (.refl _)
  obtain ⟨outputs₂, d₂, h₂⟩ :=
    exists_batch MediaType.ofPath hd hpages ready_alikePages {} (List.Perm.swap _ _ _)
  refine ⟨pageFiles_alikePages, houtEmpty.trans houtBreak.symm, outputs₁, d₁, outputs₂, d₂, h₁, h₂,
    ?_, ?_, ?_⟩
  · simp [h₁.outputs_eq]
  · simp only [h₁.outputs_eq, List.map_cons, List.map_nil, houtEmpty, houtBreak, h₁.keeps.place_eq]
    decide
  · -- the page that comes last is the one that is left
    obtain ⟨notebook₁, hnotebook₁, hread₁⟩ := h₁.exists_notebook hd hpages himages
      (rfl : _ = [(⟨"in/a.json"⟩ : Path)] ++ ⟨"in/a.JSON"⟩ :: [])
    obtain ⟨notebook₂, hnotebook₂, hread₂⟩ := h₂.exists_notebook hd hpages himages
      (rfl : _ = [(⟨"in/a.JSON"⟩ : Path)] ++ ⟨"in/a.json"⟩ :: [])
    have hread₁ := hread₁ (by simp)
    have hread₂ := hread₂ (by simp)
    rw [houtBreak] at hread₁
    rw [houtEmpty] at hread₂
    obtain rfl := Option.some.inj ((pageNotebook_of_pageIn hbreak {}).symm.trans hnotebook₁)
    obtain rfl := Option.some.inj ((pageNotebook_of_pageIn hempty {}).symm.trans hnotebook₂)
    have htexts : (Notebook.ofDocument {} (some {}) [.leaf .thematicBreak]).1.text ≠
        (Notebook.ofDocument {} (some {}) []).1.text := by cbv
    rw [hread₁, hread₂]
    exact fun heq => htexts (String.toByteArray_inj.mp (Except.ok.inj heq))

end Project
end MystNotebook
