import MystNotebook.CommandLine.Arguments
import MystNotebook.Project.Export
import MystNotebook.Settings.Printer
import MystNotebook.Settings.Schema

/-! What the command line does with its arguments, and how it reports on it. -/
namespace MystNotebook.CommandLine
open Project

inductive Failure where
  | misuse
  | inputMissing (input : Path)
  | settings (cause : SettingsError)
  | pageFailed (input : Path) (cause : ExportError)
  | directoryFailed (input : Path) (cause : ExportError)
  | somePages (count : Nat)
  | settingsExist (file : Path)
  | notMade (directory : Path) (cause : StorageError)
  | notWritten (file : Path) (cause : StorageError)

def exportChain (e : ExportError) : List String := e.message :: e.cause.toList

/-- The messages from the outermost to what is behind it. -/
def Failure.chain : Failure → List String
  | .misuse => ["the arguments are not understood, see --help"]
  | .inputMissing input => ["Input path does not exist: " ++ input.text]
  | .settings cause => cause.message :: cause.cause.toList
  | .pageFailed input cause => ("Failed to export: " ++ input.text) :: exportChain cause
  | .directoryFailed input cause =>
    ("Failed to export directory: " ++ input.text) :: exportChain cause
  | .somePages count => [toString count ++ " files failed to export"]
  | .settingsExist file => [file.text ++ " already exists (use --force to overwrite)"]
  | .notMade directory cause => ["Failed to create directory: " ++ directory.text, cause.message]
  | .notWritten file cause => ["Failed to write: " ++ file.text, cause.message]

def Failure.exitCode : Failure → UInt8
  | .misuse => 2
  | _ => 1

/-- A message behind `start`, with `margin` before its further lines. -/
def indentedMessage (start margin message : String) : String :=
  start ++ ("\n" ++ margin).intercalate
    ((Text.pieces message.toList).map String.ofList)

def numbered (n : Nat) : List String → List String
  | [] => []
  | cause :: causes =>
    let number := toString n
    let start := String.ofList (List.replicate (5 - number.length) ' ') ++ number ++ ": "
    indentedMessage start "       " cause :: numbered (n + 1) causes

/-- A message with the messages behind it, which are numbered if there are several. -/
def reportChain : List String → String
  | [] => ""
  | [message] => "Error: " ++ message ++ "\n"
  | [message, cause] =>
    "Error: " ++ message ++ "\n\nCaused by:\n" ++ indentedMessage "    " "    " cause ++ "\n"
  | message :: causes =>
    "Error: " ++ message ++ "\n\nCaused by:\n" ++ "\n".intercalate (numbered 0 causes) ++ "\n"

structure Outcome where
  output : String := ""
  /-- What is said beside the output, before the failure. -/
  messages : String := ""
  failure : Option Failure := none

def Outcome.exitCode (o : Outcome) : UInt8 := (o.failure.map Failure.exitCode).getD 0

def Outcome.errorText (o : Outcome) : String :=
  o.messages ++ (o.failure.map fun f => reportChain f.chain).getD ""

def failed (f : Failure) : Outcome := { failure := some f }

def versionText : String := "myst2ipynb 0.1.0\n"

def helpText : String :=
  "Export MyST documents (page JSON) to Jupyter notebooks\n\n" ++
  "Usage: myst2ipynb [OPTIONS] <INPUT>\n       myst2ipynb [OPTIONS] <COMMAND>\n\n" ++
  "Commands:\n" ++
  "  init    Write a sample configuration file\n" ++
  "  schema  Print the JSON schema of the configuration file\n" ++
  "  help    Print this message or the help of the given subcommand(s)\n\n" ++
  "Options:\n" ++
  "  -o, --output <OUTPUT>            Output file or directory\n" ++
  "  -j, --jobs <JOBS>                Number of parallel jobs (defaults to number of CPUs)\n" ++
  "  -r, --recursive                  Process directories recursively\n" ++
  "      --markdown <MARKDOWN>        Markdown dialect for markdown cells\n" ++
  "      --drop-solutions             Remove solutions (CommonMark output only)\n" ++
  "      --images <IMAGES>            Keep image references or embed local images as " ++
    "attachments\n" ++
  "      --source-root <SOURCE_ROOT>  Directory that `/`-prefixed image URLs are relative to\n" ++
  "      --config <CONFIG>            Configuration file\n" ++
  "  -v, --verbose                    Verbose output\n" ++
  "  -q, --quiet                      Quiet mode - only show errors\n" ++
  "  -h, --help                       Print help\n" ++
  "  -V, --version                    Print version\n"

/-- What holds for a run: an argument before the settings file, and that before the default. -/
structure Effective where
  options : ExportOptions
  recursive : Bool

def Effective.resolve (a : Arguments) (s : Settings) : Except SettingsError Effective := do
  let markdown ← match a.markdown with
    | some format => .ok format
    | none => (s.markdownFormat.mapError .markdownFormat).map (·.getD .myst)
  let images ← match a.images with
    | some mode => .ok mode
    | none => (s.imageMode.mapError .imageMode).map (·.getD .reference)
  .ok {
    options := {
      markdown := markdown
      dropSolutions := a.dropSolutions || s.markdown.dropSolutions.getD false
      images := images
      sourceRoot := a.sourceRoot <|> s.images.sourceRoot }
    recursive := a.recursive || s.batch.recursive.getD false }

def pathLines (ps : List Path) : String := String.join (ps.map fun p => p.text ++ "\n")

variable (mediaType : Path → String) {m : Type → Type} [Monad m] [Storage m]

def runPage (input : Path) (output : Option Path) (options : ExportOptions) (quiet : Bool) :
    m Outcome := do
  Storage.log .debug ("Exporting: " ++ input.text)
  match ← exportPage mediaType input output options with
  | .error e => return failed (.pageFailed input e)
  | .ok file => return { output := if quiet then "" else pathLines [file] }

/-- The report on a directory. -/
def directoryOutcome (input : Path) (result : ExportResult) (quiet : Bool) : Outcome :=
  let failures := result.failed.length
  if result.outputs.length + failures = 0 then
    { messages := if quiet then "" else "No .json page files found in " ++ input.text ++ "\n" }
  else
    let errors := String.join (result.failed.map fun (file, e) =>
      "Error exporting " ++ file.text ++ ": " ++ e.message ++ "\n")
    let summary := "Exported " ++ toString result.outputs.length ++ " files, " ++
      toString failures ++ " failed\n"
    { output := if quiet then "" else pathLines result.outputs
      messages := if quiet then errors else errors ++ summary
      failure := if failures = 0 then none else some (.somePages failures) }

def runDirectory (input output : Path) (effective : Effective) (quiet : Bool) : m Outcome := do
  match ← exportDirectory mediaType input output effective.recursive effective.options with
  | .error e => return failed (.directoryFailed input e)
  | .ok result => return directoryOutcome input result quiet

def runInit (directory : Path) (force : Bool) : m Outcome := do
  let file := directory.join ⟨Settings.fileName⟩
  if (← Storage.doesExist file) && !force then return failed (.settingsExist file)
  match ← Storage.ensureDirectories directory with
  | .error e => return failed (.notMade directory e)
  | .ok () =>
    match ← Storage.write file Settings.sample.print with
    | .error e => return failed (.notWritten file e)
    | .ok () => return { output := pathLines [file] }

def runExport (a : Arguments) (input : Path) : m Outcome := do
  let loaded ← match a.settings with
    | some file => Settings.load file
    | none => pure ((← Settings.loadFrom ⟨"."⟩).map (·.getD {}))
  match loaded.bind (Effective.resolve a) with
  | .error e => return failed (.settings e)
  | .ok effective =>
    match ← Storage.kindOf input with
    | some .file => runPage mediaType input a.output effective.options a.quiet
    | some .directory => runDirectory mediaType input (a.output.getD input) effective a.quiet
    | none => return failed (.inputMissing input)

def runArguments (a : Arguments) : m Outcome :=
  match a.command with
  | .init directory force => runInit directory force
  | .schema => return { output := String.ofList (Settings.schema.indented 0) ++ "\n" }
  | .convert =>
    match a.input with
    | some input => runExport mediaType a input
    | none => return failed .misuse

def run (arguments : List String) : m Outcome :=
  match Arguments.parse arguments with
  | .ok a => runArguments mediaType a
  | .error .version => return { output := versionText }
  | .error .help => return { output := helpText }
  | .error .misuse => return failed .misuse

/-- Whether a run shows what is logged at a level. -/
def shows (arguments : List String) (level : LogLevel) : Bool :=
  match Arguments.parse arguments with
  | .ok a => a.verbose || (!a.quiet && level == .warn)
  | .error _ => false

end MystNotebook.CommandLine
