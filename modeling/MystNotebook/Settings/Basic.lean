import MystNotebook.Json.Value
import MystNotebook.Options
import MystNotebook.Path
import MystNotebook.Settings.TomlReader
import MystNotebook.Storage.Basic

/-! The settings file of a project: three optional tables whose entries are all optional. -/
namespace MystNotebook

structure MarkdownSettings where
  format : Option String := none
  dropSolutions : Option Bool := none
  deriving DecidableEq, Repr

structure ImageSettings where
  mode : Option String := none
  /-- Where urls of images that start with a slash begin. -/
  sourceRoot : Option Path := none
  deriving DecidableEq, Repr

structure BatchSettings where
  recursive : Option Bool := none
  jobs : Option Nat := none
  deriving DecidableEq, Repr

structure Settings where
  markdown : MarkdownSettings := {}
  images : ImageSettings := {}
  batch : BatchSettings := {}
  deriving DecidableEq, Repr

namespace Settings

def fileName : String := "_myst2ipynb.toml"

def schemaUrl : String :=
  "https://raw.githubusercontent.com/myst2ipynb/myst2ipynb/main/crates/" ++
    "myst2ipynb-cli/schema/myst2ipynb.schema.json"

def text : Toml.Value → Option String
  | .string s => some s
  | _ => none

def flag : Toml.Value → Option Bool
  | .boolean b => some b
  | _ => none

/-- A count of at most 64 bits. -/
def count : Toml.Value → Option Nat
  | .integer n => if 0 ≤ n ∧ n < UInt64.size then some n.toNat else none
  | _ => none

/-- Entries under other names are not read, but their numbers have to be representable. -/
def known (names : List String) (t : Toml.Table) : Option Toml.Table :=
  if t.all fun (name, v) => names.contains name || v.isRepresentable then some t else none

/-- The entries of a table, or the items of an array in the order of `names`; a date has none. -/
def entries (names : List String) : Toml.Value → Option Toml.Table
  | .table _ entries => known names entries
  | .array items => some (names.zip items)
  | .dateTime _ => some []
  | _ => none

def table {α : Type} (read : Toml.Table → Option α) (default : α) (names : List String)
    (key : String) (t : Toml.Table) : Option α :=
  match Toml.find key t with
  | none => some default
  | some v => (entries names v).bind read

def entry {α : Type} (read : Toml.Value → Option α) (key : String) (t : Toml.Table) :
    Option (Option α) :=
  match Toml.find key t with
  | none => some none
  | some v => (read v).map some

def readMarkdown (t : Toml.Table) : Option MarkdownSettings := do
  some { format := ← entry text "format" t, dropSolutions := ← entry flag "drop_solutions" t }

def readImages (t : Toml.Table) : Option ImageSettings := do
  let mode ← entry text "mode" t
  let sourceRoot ← entry text "source_root" t
  some { mode := mode, sourceRoot := sourceRoot.map Path.mk }

def readBatch (t : Toml.Table) : Option BatchSettings := do
  some { recursive := ← entry flag "recursive" t, jobs := ← entry count "jobs" t }

/-- Entries and tables that are not known do not matter; an entry of the wrong type does. -/
def read (source : String) : Option Settings := do
  let t ← known ["markdown", "images", "batch"] (← Toml.read source)
  some {
    markdown := ← table readMarkdown {} ["format", "drop_solutions"] "markdown" t
    images := ← table readImages {} ["mode", "source_root"] "images" t
    batch := ← table readBatch {} ["recursive", "jobs"] "batch" t }

/-- A relative root of the sources is taken from the directory of the settings file. -/
def relocate (s : Settings) (file : Path) : Settings :=
  match s.images.sourceRoot, file.parent with
  | some root, some directory =>
    if root.isAbsolute then s
    else { s with images := { s.images with sourceRoot := some (directory.join root) } }
  | _, _ => s

def markdownFormat (s : Settings) : Except InvalidOption (Option MarkdownFormat) :=
  match s.markdown.format with
  | none => .ok none
  | some name => (MarkdownFormat.read name).map some

def imageMode (s : Settings) : Except InvalidOption (Option ImageMode) :=
  match s.images.mode with
  | none => .ok none
  | some name => (ImageMode.read name).map some

/-- What a new project starts with. -/
def sample : Settings where
  markdown := { format := some MarkdownFormat.myst.name, dropSolutions := some false }
  images := { mode := some ImageMode.reference.name }
  batch := { recursive := some true }

end Settings

inductive SettingsError where
  | unreadable (file : Path) (cause : StorageError)
  | unparsable (file : Path)
  | markdownFormat (cause : InvalidOption)
  | imageMode (cause : InvalidOption)

def SettingsError.message : SettingsError → String
  | .unreadable file _ => "Failed to read config file: " ++ file.text
  | .unparsable file => "Failed to parse config file: " ++ file.text
  | .markdownFormat _ => "Invalid [markdown] format in config"
  | .imageMode _ => "Invalid [images] mode in config"

/-- The message of what lies behind an error. -/
def SettingsError.cause : SettingsError → Option String
  | .unreadable _ cause => some cause.message
  | .unparsable _ => none
  | .markdownFormat cause => some cause.message
  | .imageMode cause => some cause.message

namespace Settings

variable {m : Type → Type} [Monad m] [Storage m]

def load (file : Path) : m (Except SettingsError Settings) := do
  match ← Storage.readText file with
  | .error e => return .error (.unreadable file e)
  | .ok source => match read source with
    | none => return .error (.unparsable file)
    | some s => return .ok (s.relocate file)

/-- The settings in a directory, if there is a file for them. -/
def loadFrom (directory : Path) : m (Except SettingsError (Option Settings)) := do
  let file := directory.join ⟨fileName⟩
  if ← Storage.doesExist file then return (← load file).map some else return .ok none

end Settings
end MystNotebook
