import MystNotebook.Json.Reader
import MystNotebook.Notebook.Assemble
import MystNotebook.Page
import MystNotebook.Project.Image

/-! Pages of a project as notebook files, one page or a directory at a time. -/
namespace MystNotebook.Project

/-- Why a page is not read. -/
inductive PageError where
  | syntaxError
  | data (cause : Json.DecodeError)

def PageError.message : PageError → String
  | .syntaxError => "syntax error"
  | .data cause => cause.message

inductive ExportError where
  | storage (cause : StorageError)
  | page (file : Path) (cause : PageError)
  | directoryNotFound (directory : Path)

def ExportError.message : ExportError → String
  | .storage cause => "IO error: " ++ cause.message
  | .page file cause => "Invalid JSON in " ++ file.text ++ ": " ++ cause.message
  | .directoryNotFound directory => "Directory not found: " ++ directory.text

/-- The message of what lies behind an error, if anything does. -/
def ExportError.cause : ExportError → Option String
  | .storage cause => some cause.message
  | .page _ cause => some cause.message
  | .directoryNotFound _ => none

/-- What is asked of every page; a page may ask otherwise for its own Markdown and images. -/
structure ExportOptions where
  markdown : MarkdownFormat := .myst
  dropSolutions : Bool := false
  images : ImageMode := .reference
  /-- Where urls that start with a slash begin; for a single page without one, its directory. -/
  sourceRoot : Option Path := none

/-- Arrays and objects of a page may be nested this deep. -/
def nestingLimit : Nat := 127

def readPage (text : String) : Except PageError Page :=
  match Json.read nestingLimit text.toList with
  | none => .error .syntaxError
  | some v => (Page.decode v).mapError .data

def notebookExtension : String := "ipynb"

def pageDirectory (page : Path) : Path := page.parent.getD ⟨""⟩

/-- The file that a page is exported to when none is named: what its frontmatter asks for, which
names a directory unless it has the extension of a notebook, or a file beside the page. -/
def defaultOutput (input : Path) (frontmatter : Frontmatter) : Path :=
  match frontmatter.notebookExport.bind (·.output) with
  | none => input.withExtension notebookExtension
  | some output =>
    let target := (pageDirectory input).join ⟨output⟩
    if target.extension.any (Text.sameLetters · notebookExtension) then target
    else (target.join ⟨input.stem.getD input.text⟩).withExtension notebookExtension

/-- Where a page of a directory goes below the output directory. -/
def batchOutput (file inputDirectory outputDirectory : Path) : Path :=
  (outputDirectory.join ((file.relativeTo inputDirectory).getD file)).withExtension
    notebookExtension

def isPageFile (p : Path) : Bool := p.extension.any (Text.sameLetters · "json")

variable {m : Type → Type} [Monad m] [Storage m]

def loadPage (file : Path) : m (Except ExportError Page) := do
  match ← Storage.readText file with
  | .error e => return .error (.storage e)
  | .ok text => return (readPage text).mapError (.page file)

def logDiagnostics (file : Path) : List Markdown.Diagnostic → m Unit
  | [] => return ()
  | d :: ds => do
    Storage.log .debug (file.text ++ ": " ++ d.message ++ " (" ++ d.nodeType ++ ")")
    logDiagnostics file ds

variable (mediaType : Path → String)

/-- The options for the notebook of a page, with the images that it needs. -/
def notebookOptions (page : Page) (file : Path) (options : ExportOptions) : m NotebookOptions := do
  let entry := page.frontmatter.notebookExport
  let markdown := (entry.bind (·.markdownFormat)).getD options.markdown
  let images ← match (entry.bind (·.imageMode)).getD options.images with
    | .reference => pure Images.reference
    | .attachment =>
      let sourceRoot := options.sourceRoot.getD (pageDirectory file)
      pure (Images.attachment (← collectImages mediaType page.document file sourceRoot))
  return { markdown := markdown, dropSolutions := options.dropSolutions, images := images }

/-- The notebook of a page; `file` says where its images are. -/
def renderPage (page : Page) (file : Path) (options : ExportOptions) : m Notebook := do
  let notebookOptions ← notebookOptions mediaType page file options
  let (notebook, diagnostics) :=
    Notebook.ofDocument notebookOptions (some page.frontmatter) page.document
  logDiagnostics file diagnostics
  return notebook

/-- Makes the directories on the way to a file. -/
def ensureParent (file : Path) : m (Except StorageError Unit) :=
  match file.parent with
  | some parent => if parent.text.isEmpty then pure (.ok ()) else Storage.ensureDirectories parent
  | none => pure (.ok ())

/-- Writes a notebook and makes the directories that it needs. -/
def writeNotebook (notebook : Notebook) (file : Path) : m (Except ExportError Unit) := do
  match ← ensureParent file with
  | .error e => return .error (.storage e)
  | .ok () => return (← Storage.write file notebook.text).mapError .storage

/-- Exports the page in `input` to the file that `output` gives for its frontmatter. -/
def exportTo (input : Path) (output : Frontmatter → Path) (options : ExportOptions) :
    m (Except ExportError Path) := do
  match ← loadPage input with
  | .error e => return .error e
  | .ok page =>
    let notebook ← renderPage mediaType page input options
    let file := output page.frontmatter
    return (← writeNotebook notebook file).map fun _ => file

def exportPage (input : Path) (output : Option Path) (options : ExportOptions) :
    m (Except ExportError Path) :=
  exportTo mediaType input (fun frontmatter => output.getD (defaultOutput input frontmatter))
    options

structure ExportResult where
  outputs : List Path
  /-- The pages that could not be exported, with the reason. -/
  failed : List (Path × ExportError)

mutual

/-- The page files in a directory, and in the directories below it if `recursive`, to a depth that
the storage does not exceed. -/
def pageFiles (recursive : Bool) : Nat → Path → m (Except StorageError (List Path))
  | 0, _ => return .ok []
  | depth + 1, directory => do
    match ← Storage.list directory with
    | .error e => return .error e
    | .ok names => pageFilesAmong recursive depth (names.map fun name => directory.join ⟨name⟩)
  termination_by depth _ => (depth, 0)

/-- The page files at a path, which may be one itself. -/
def pageFilesAt (recursive : Bool) (depth : Nat) (p : Path) :
    m (Except StorageError (List Path)) := do
  match ← Storage.kindOf p with
  | some .file => return .ok (if isPageFile p then [p] else [])
  | some .directory => if recursive then pageFiles recursive depth p else return .ok []
  | none => return .ok []
  termination_by (depth, 1)

def pageFilesAmong (recursive : Bool) (depth : Nat) :
    List Path → m (Except StorageError (List Path))
  | [] => return .ok []
  | p :: ps => do
    match ← pageFilesAt recursive depth p with
    | .error e => return .error e
    | .ok files => return (← pageFilesAmong recursive depth ps).map (files ++ ·)
  termination_by ps => (depth, ps.length + 1)

end

/-- Directories are followed no deeper than this, which is more than a path can name. -/
def directoryDepth : Nat := 4096

def exportFiles (inputDirectory outputDirectory : Path) (options : ExportOptions) :
    List Path → m ExportResult
  | [] => return ⟨[], []⟩
  | file :: files => do
    let output := batchOutput file inputDirectory outputDirectory
    let outcome ← exportTo mediaType file (fun _ => output) options
    let rest ← exportFiles inputDirectory outputDirectory options files
    return match outcome with
      | .ok path => { rest with outputs := path :: rest.outputs }
      | .error e => { rest with failed := (file, e) :: rest.failed }

/-- Exports every page of a directory to the same place below another. A page that fails does not
stop the others. -/
def exportDirectory (inputDirectory outputDirectory : Path) (recursive : Bool)
    (options : ExportOptions) : m (Except ExportError ExportResult) := do
  if !(← Storage.isDirectory inputDirectory) then
    return .error (.directoryNotFound inputDirectory)
  match ← Storage.ensureDirectories outputDirectory with
  | .error e => return .error (.storage e)
  | .ok () =>
    match ← pageFiles recursive directoryDepth inputDirectory with
    | .error e => return .error (.storage e)
    | .ok files =>
      let options := { options with sourceRoot := some (options.sourceRoot.getD inputDirectory) }
      return .ok
        (← exportFiles mediaType inputDirectory outputDirectory options (files.mergeSort Path.le))

end MystNotebook.Project
