import MystNotebook.Project.Export
import MystNotebook.Proofs.DiskChanges

/-! One page of a batch on a disk in memory. Loading changes nothing, rendering only logs, and of
all files the export writes the one at the place of its output; the notebook depends on nothing but
the page and the images that it embeds. -/
namespace MystNotebook

/-! Actions. -/

namespace Disk

variable {α β : Type}

theorem run_bind (x : StateM Disk α) (f : α → StateM Disk β) (d : Disk) :
    (x >>= f).run d = (f (x.run d).1).run (x.run d).2 := rfl

/-- The places on the way to a path, with its own. -/
def onWay (d : Disk) (p : Path) (l : Location) : Prop := ∃ q, p.OnWay q ∧ l = d.place q

theorem not_onWay_of_parent {d : Disk} {p : Path} {l : Location} (hl : l ≠ d.place p)
    (h : ∀ parent, p.parent = some parent → ¬ d.onWay parent l) : ¬ d.onWay p l := by
  rintro ⟨q, hq, hplace⟩
  rcases Path.onWay_iff.mp hq with rfl | ⟨parent, hparent, hway⟩
  · exact hl hplace
  · exact h parent hparent ⟨q, hway, hplace⟩

theorem Keeps.onWay {written made : Location → Prop} {d d' : Disk} (h : Keeps written made d d')
    {p : Path} {l : Location} (hl : d'.onWay p l) : d.onWay p l := by
  obtain ⟨q, hq, hl⟩ := hl
  exact ⟨q, hq, hl.trans (h.place_eq q)⟩

/-- Whether an action writes no file and makes directories only on the way to a path. -/
def MakesTo (p : Path) (x : StateM Disk α) : Prop :=
  ∀ written d, Keeps written (d.onWay p) d (x.run d).2

variable {p : Path}

theorem MakesTo.pure (a : α) : MakesTo p (pure a) := fun _ d => Keeps.refl d

theorem MakesTo.bind {x : StateM Disk α} {f : α → StateM Disk β} (hx : MakesTo p x)
    (hf : ∀ a, MakesTo p (f a)) : MakesTo p (x >>= f) := fun written d =>
  (hx written d).trans ((hf _ written _).mono (fun _ h => h) fun _ => (hx written d).onWay)

theorem MakesTo.of_parent {parent : Path} (hparent : p.parent = some parent)
    {x : StateM Disk α} (h : MakesTo parent x) : MakesTo p x := fun written d =>
  (h written d).mono (fun _ h => h) fun _ ⟨q, hq, hl⟩ => ⟨q, hq.of_parent hparent, hl⟩

theorem makesTo_isDirectory (q : Path) : MakesTo p (Storage.isDirectory q) :=
  fun _ d => Keeps.refl d

theorem makesTo_makeDirectory (p : Path) : MakesTo p (Storage.makeDirectory p) := by
  intro written d
  change Keeps written (d.onWay p) d (change (·.makeDirectory p) d).2
  unfold change
  split
  · next d' h =>
    obtain ⟨⟨q, hlocate⟩, hl, rfl⟩ := makeDirectory_eq_ok h
    exact keeps_set_directory hlocate hl ⟨p, .self, rfl⟩
  · exact Keeps.refl d

theorem makesTo_ensureDirectory (p : Path) : MakesTo p (Storage.ensureDirectory p) := by
  refine .bind (makesTo_makeDirectory p) fun made => ?_
  cases made with
  | ok => exact .pure _
  | error e =>
    refine .bind (makesTo_isDirectory p) fun there => ?_
    cases there <;> exact .pure _

theorem makesTo_ensureTree (depth : Nat) (p : Path) : MakesTo p (Storage.ensureTree depth p) := by
  induction depth generalizing p with
  | zero => exact makesTo_ensureDirectory p
  | succ depth ih =>
    rw [Storage.ensureTree]
    split
    · exact .pure _
    · refine .bind (makesTo_makeDirectory p) fun made => ?_
      split
      · exact .pure _
      · split
        · exact .pure _
        · next parent hparent =>
          refine .bind ((ih parent).of_parent hparent) fun made => ?_
          cases made with
          | ok => exact makesTo_ensureDirectory p
          | error e => exact .pure _
      · refine .bind (makesTo_isDirectory p) fun there => ?_
        cases there <;> exact .pure _

theorem run_write_of_ok {p : Path} {s : String} {d d' : Disk} (h : d.writeFile p s = .ok d') :
    (Storage.write p s : StateM Disk _).run d = (.ok (), d') := by
  change change (·.writeFile p s) d = _
  unfold change
  simp only [h]

theorem run_write_of_error {p : Path} {s : String} {d : Disk} {e : StorageError}
    (h : d.writeFile p s = .error e) :
    (Storage.write p s : StateM Disk _).run d = (.error e, d) := by
  change change (·.writeFile p s) d = _
  unfold change
  simp only [h]

end Disk

namespace Project
open Disk

/-! Loading. -/

theorem run_readBytes (p : Path) (d : Disk) :
    (Storage.readBytes p : StateM Disk _).run d = (d.readBytes p, d) := rfl

theorem run_readText (p : Path) (d : Disk) :
    (Storage.readText p : StateM Disk _).run d =
      ((d.readBytes p).bind fun bytes =>
        (String.fromUTF8? bytes).elim (.error .notText) .ok, d) := by
  rw [Storage.readText, run_bind, run_readBytes]
  cases d.readBytes p with
  | error e => rfl
  | ok bytes =>
    dsimp only [Except.bind]
    cases String.fromUTF8? bytes <;> rfl

/-- The page in a file. -/
def pageIn (d : Disk) (file : Path) : Except ExportError Page :=
  ((loadPage file : StateM Disk _).run d).1

/-- A page is in the bytes of its file, and loading it leaves the disk as it is. -/
theorem run_loadPage (file : Path) (d : Disk) :
    (loadPage file : StateM Disk _).run d =
      ((((d.readBytes file).bind fun bytes =>
          (String.fromUTF8? bytes).elim (.error .notText) .ok).mapError .storage).bind fun text =>
        (readPage text).mapError (.page file), d) := by
  rw [loadPage, run_bind, run_readText]
  generalize (d.readBytes file).bind _ = text
  cases text <;> rfl

theorem run_loadPage_eq (file : Path) (d : Disk) :
    (loadPage file : StateM Disk _).run d = (pageIn d file, d) :=
  Prod.ext rfl (by rw [run_loadPage])

theorem pageIn_eq_of_readBytes {d d' : Disk} {file : Path}
    (h : d'.readBytes file = d.readBytes file) : pageIn d' file = pageIn d file := by
  rw [pageIn, pageIn, run_loadPage, run_loadPage, h]

/-! Rendering. -/

theorem walk_log (d : Disk) (log : List (LogLevel × String)) (location : Location)
    (parts : List (List Char)) :
    ({ d with log := log } : Disk).walk location parts = d.walk location parts := by
  induction parts generalizing location with
  | nil => rfl
  | cons part parts ih =>
    simp only [walk, ih]
    rfl

theorem locate_log (d : Disk) (log : List (LogLevel × String)) (p : Path) :
    ({ d with log := log } : Disk).locate p = d.locate p := by
  simp only [locate, walk_log]

theorem find_log (d : Disk) (log : List (LogLevel × String)) (p : Path) :
    ({ d with log := log } : Disk).find p = d.find p := by
  rw [find, find, locate_log]
  rfl

theorem readBytes_log (d : Disk) (log : List (LogLevel × String)) (p : Path) :
    ({ d with log := log } : Disk).readBytes p = d.readBytes p := by
  rw [readBytes, readBytes, find_log]

variable (mediaType : Path → String)

/-- What is read for a url, if it leads to a file. -/
def imageAt (d : Disk) (document sourceRoot : Path) (url : String) : Option ImageData :=
  (imagePath url document sourceRoot).bind fun p =>
    (d.readBytes p).toOption.map (encodeImage mediaType p)

/-- The images among some urls that can be read. -/
def imagesIn (d : Disk) (document sourceRoot : Path) (urls : List String) : ImageMap :=
  urls.filterMap fun url => (imagePath url document sourceRoot).bind fun p =>
    (d.readBytes p).toOption.map fun bytes => (url, encodeImage mediaType p bytes)

theorem imagesIn_eq_filterMap (d : Disk) (document sourceRoot : Path) (urls : List String) :
    imagesIn mediaType d document sourceRoot urls =
      urls.filterMap fun url => (imageAt mediaType d document sourceRoot url).map (url, ·) := by
  refine List.filterMap_congr fun url _ => ?_
  rw [imageAt, Option.map_bind]
  refine congrArg _ (funext fun p => ?_)
  rw [Function.comp_apply, Option.map_map]
  rfl

theorem run_readImage (url : String) (document sourceRoot : Path) (d : Disk) :
    ∃ log, (readImage mediaType url document sourceRoot : StateM Disk _).run d =
      (imageAt mediaType d document sourceRoot url, { d with log := log }) := by
  rw [readImage, imageAt]
  cases imagePath url document sourceRoot with
  | none => exact ⟨_, rfl⟩
  | some p =>
    rw [Option.bind_some]
    dsimp only
    rw [run_bind, run_readBytes]
    cases d.readBytes p with
    | ok bytes => exact ⟨d.log, rfl⟩
    | error e => exact ⟨_, rfl⟩

theorem run_readImages (document sourceRoot : Path) (urls : List String) (d : Disk) :
    ∃ log, (readImages mediaType document sourceRoot urls : StateM Disk _).run d =
      (imagesIn mediaType d document sourceRoot urls, { d with log := log }) := by
  induction urls generalizing d with
  | nil => exact ⟨d.log, rfl⟩
  | cons url urls ih =>
    obtain ⟨log, himage⟩ := run_readImage mediaType url document sourceRoot d
    obtain ⟨log', himages⟩ := ih { d with log := log }
    refine ⟨log', ?_⟩
    have hrest : imagesIn mediaType { d with log := log } document sourceRoot urls =
        imagesIn mediaType d document sourceRoot urls := by
      simp only [imagesIn, readBytes_log]
    rw [hrest] at himages
    rw [readImages, run_bind, himage]
    change (readImages mediaType document sourceRoot urls >>= _ : StateM Disk _).run _ = _
    rw [run_bind, himages, imagesIn_eq_filterMap, imagesIn_eq_filterMap, List.filterMap_cons]
    cases imageAt mediaType d document sourceRoot url <;> rfl

def imageMode (page : Page) (options : ExportOptions) : ImageMode :=
  (page.frontmatter.notebookExport.bind (·.imageMode)).getD options.images

/-- The files that the images of a page are read from. -/
def imageFiles (page : Page) (file : Path) (options : ExportOptions) : List Path :=
  match imageMode page options with
  | .reference => []
  | .attachment => (imageUrls page.document).filterMap
      (imagePath · file (options.sourceRoot.getD (pageDirectory file)))

/-- What a page asks of its notebook, with the images that can be read. -/
def optionsIn (d : Disk) (page : Page) (file : Path) (options : ExportOptions) :
    NotebookOptions where
  markdown := (page.frontmatter.notebookExport.bind (·.markdownFormat)).getD options.markdown
  dropSolutions := options.dropSolutions
  images := match imageMode page options with
    | .reference => .reference
    | .attachment => .attachment (imagesIn mediaType d file
        (options.sourceRoot.getD (pageDirectory file)) (imageUrls page.document))

theorem run_notebookOptions (page : Page) (file : Path) (options : ExportOptions) (d : Disk) :
    ∃ log, (notebookOptions mediaType page file options : StateM Disk _).run d =
      (optionsIn mediaType d page file options, { d with log := log }) := by
  rw [notebookOptions, optionsIn, imageMode]
  cases (page.frontmatter.notebookExport.bind (·.imageMode)).getD options.images with
  | reference => exact ⟨d.log, rfl⟩
  | attachment =>
    obtain ⟨log, himages⟩ := run_readImages mediaType file
      (options.sourceRoot.getD (pageDirectory file)) (imageUrls page.document) d
    refine ⟨log, ?_⟩
    dsimp only [collectImages]
    simp only [pure_bind, run_bind, himages]
    rfl

theorem run_logDiagnostics (file : Path) (ds : List Markdown.Diagnostic) (d : Disk) :
    ∃ log, (logDiagnostics file ds : StateM Disk _).run d = ((), { d with log := log }) := by
  induction ds generalizing d with
  | nil => exact ⟨d.log, rfl⟩
  | cons diagnostic ds ih => exact ih _

/-- A notebook is made of the page and the images that can be read, and nothing is written. -/
theorem run_renderPage (page : Page) (file : Path) (options : ExportOptions) (d : Disk) :
    ∃ log, (renderPage mediaType page file options : StateM Disk _).run d =
      ((Notebook.ofDocument (optionsIn mediaType d page file options) (some page.frontmatter)
        page.document).1, { d with log := log }) := by
  obtain ⟨log, hoptions⟩ := run_notebookOptions mediaType page file options d
  obtain ⟨log', hlog⟩ := run_logDiagnostics file
    (Notebook.ofDocument (optionsIn mediaType d page file options) (some page.frontmatter)
      page.document).2 { d with log := log }
  refine ⟨log', ?_⟩
  rw [renderPage, run_bind, hoptions]
  dsimp only
  rw [run_bind, hlog]
  rfl

/-- The notebook of the page in a file, as the disk is. -/
def pageNotebook (options : ExportOptions) (d : Disk) (file : Path) : Option Notebook :=
  (pageIn d file).toOption.map fun page =>
    ((renderPage mediaType page file options : StateM Disk _).run d).1

variable {mediaType}

theorem imagesIn_eq {d d' : Disk} {document sourceRoot : Path} {urls : List String}
    (h : ∀ url ∈ urls, ∀ p, imagePath url document sourceRoot = some p →
      d'.readBytes p = d.readBytes p) :
    imagesIn mediaType d' document sourceRoot urls =
      imagesIn mediaType d document sourceRoot urls := by
  refine List.filterMap_congr fun url hurl => ?_
  cases hpath : imagePath url document sourceRoot with
  | none => rfl
  | some p => simp only [Option.bind_some, h url hurl p hpath]

theorem optionsIn_eq {d d' : Disk} {page : Page} {file : Path} {options : ExportOptions}
    (h : ∀ p ∈ imageFiles page file options, d'.readBytes p = d.readBytes p) :
    optionsIn mediaType d' page file options = optionsIn mediaType d page file options := by
  rw [optionsIn, optionsIn]
  rw [imageFiles] at h
  cases hmode : imageMode page options with
  | reference => rfl
  | attachment =>
    rw [hmode] at h
    have hurls : imagesIn mediaType d' file (options.sourceRoot.getD (pageDirectory file))
          (imageUrls page.document) =
        imagesIn mediaType d file (options.sourceRoot.getD (pageDirectory file))
          (imageUrls page.document) :=
      imagesIn_eq fun url hurl p hp => h p (List.mem_filterMap.mpr ⟨url, hurl, hp⟩)
    simp only [hurls]

theorem pageNotebook_of_pageIn {d : Disk} {file : Path} {page : Page} (h : pageIn d file = .ok page)
    (options : ExportOptions) :
    pageNotebook mediaType options d file =
      some (Notebook.ofDocument (optionsIn mediaType d page file options) (some page.frontmatter)
        page.document).1 := by
  obtain ⟨log, hrender⟩ := run_renderPage mediaType page file options d
  rw [pageNotebook, h]
  simp only [Except.toOption, Option.map_some, hrender]

/-- A notebook depends on nothing but its page and the images of the page. -/
theorem pageNotebook_eq {d d' : Disk} {file : Path} {options : ExportOptions}
    (hread : d'.readBytes file = d.readBytes file)
    (himages : ∀ page, pageIn d file = .ok page → ∀ p ∈ imageFiles page file options,
      d'.readBytes p = d.readBytes p) :
    pageNotebook mediaType options d' file = pageNotebook mediaType options d file := by
  have hpage : pageIn d' file = pageIn d file := pageIn_eq_of_readBytes hread
  cases hpageIn : pageIn d file with
  | error e =>
    rw [pageNotebook, pageNotebook, hpage, hpageIn]
    rfl
  | ok page =>
    rw [pageNotebook_of_pageIn hpageIn, pageNotebook_of_pageIn (hpage.trans hpageIn),
      optionsIn_eq (himages page hpageIn)]

/-! Writing. -/

theorem makesTo_ensureParent (file : Path) : MakesTo file (ensureParent file) := by
  rw [ensureParent]
  split
  · next parent hparent =>
    split
    · exact .pure _
    · exact (makesTo_ensureTree _ parent).of_parent hparent
  · exact .pure _

/-- The directories for a notebook are made before it is written. -/
theorem run_writeNotebook (notebook : Notebook) (file : Path) (d : Disk) :
    ∃ d₁, (∀ written, Keeps written (d.onWay file) d d₁) ∧
      ((∃ d', d₁.writeFile file notebook.text = .ok d' ∧
        (writeNotebook notebook file : StateM Disk _).run d = (.ok (), d')) ∨
      ∃ e, (writeNotebook notebook file : StateM Disk _).run d = (.error e, d₁)) := by
  have hkeeps := fun written => makesTo_ensureParent file written d
  rw [writeNotebook, run_bind]
  generalize (ensureParent file : StateM Disk _).run d = made at hkeeps ⊢
  obtain ⟨_ | _, d₁⟩ := made
  · exact ⟨d₁, hkeeps, .inr ⟨_, rfl⟩⟩
  · refine ⟨d₁, hkeeps, ?_⟩
    dsimp only
    cases hwrite : d₁.writeFile file notebook.text with
    | ok d' => exact .inl ⟨d', rfl, by rw [run_bind, run_write_of_ok hwrite]; rfl⟩
    | error e => exact .inr ⟨.storage e, by rw [run_bind, run_write_of_error hwrite]; rfl⟩

variable (mediaType)

/-- What the export of a page can do: it ends with the notebook written, or fails without a file. -/
theorem run_exportTo (file output : Path) (options : ExportOptions) (d : Disk) :
    ∃ d₁, (∀ written, Keeps written (d.onWay output) d d₁) ∧
      ((∃ notebook d', pageNotebook mediaType options d file = some notebook ∧
        d₁.writeFile output notebook.text = .ok d' ∧
        (exportTo mediaType file (fun _ => output) options : StateM Disk _).run d =
          (.ok output, d')) ∨
      ∃ e, (exportTo mediaType file (fun _ => output) options : StateM Disk _).run d =
        (.error e, d₁)) := by
  rw [exportTo, run_bind, run_loadPage_eq, pageNotebook]
  cases pageIn d file with
  | error e => exact ⟨d, fun _ => Keeps.refl d, .inr ⟨e, rfl⟩⟩
  | ok page =>
    dsimp only
    obtain ⟨log, hrender⟩ := run_renderPage mediaType page file options d
    generalize (Notebook.ofDocument _ _ _).1 = notebook at hrender
    simp only [Except.toOption, Option.map_some, run_bind, hrender]
    obtain ⟨d₂, hkeeps, hwrite⟩ := run_writeNotebook notebook output { d with log := log }
    refine ⟨d₂, fun written => (keeps_log d log).trans (hkeeps written), ?_⟩
    rcases hwrite with ⟨d', hfile, hrun⟩ | ⟨e, hrun⟩
    · exact .inl ⟨notebook, d', rfl, hfile, by rw [hrun]; rfl⟩
    · exact .inr ⟨e, by rw [hrun]; rfl⟩

theorem keeps_exportTo (file output : Path) (options : ExportOptions) (d : Disk) :
    Keeps (· = d.place output) (d.onWay output) d
      ((exportTo mediaType file (fun _ => output) options : StateM Disk _).run d).2 := by
  obtain ⟨d₁, hkeeps, ⟨notebook, d', -, hwrite, hrun⟩ | ⟨e, hrun⟩⟩ :=
    run_exportTo mediaType file output options d
  · rw [hrun, ← (hkeeps (· = d.place output)).place_eq]
    exact (hkeeps _).trans (keeps_writeFile hwrite)
  · rw [hrun]
    exact hkeeps _

variable {mediaType}

/-- A page that is exported has its notebook in its output. -/
theorem readBytes_of_exportTo {file output path : Path} {options : ExportOptions} {d d' : Disk}
    (h : (exportTo mediaType file (fun _ => output) options : StateM Disk _).run d =
      (.ok path, d')) :
    path = output ∧ ∃ notebook, pageNotebook mediaType options d file = some notebook ∧
      d'.readBytes output = .ok notebook.text.toUTF8 := by
  obtain ⟨d₁, -, ⟨notebook, d₂, hnotebook, hwrite, hrun⟩ | ⟨e, hrun⟩⟩ :=
    run_exportTo mediaType file output options d
  · obtain ⟨hpath, rfl⟩ := Prod.mk.inj (hrun.symm.trans h)
    exact ⟨(Except.ok.inj hpath).symm, notebook, hnotebook, readBytes_writeFile hwrite⟩
  · cases hrun.symm.trans h

end Project
end MystNotebook
