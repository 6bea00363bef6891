import MystNotebook.Json.Decode
import MystNotebook.Options

/-! The part of a page's frontmatter that matters for its notebook. -/
namespace MystNotebook
open Json

structure Kernelspec where
  name : Option String := none
  displayName : Option String := none
  language : Option String := none
  deriving DecidableEq, Repr

/-- One entry of the list of exports. -/
structure ExportEntry where
  format : Option String := none
  output : Option String := none
  markdown : Option String := none
  images : Option String := none
  deriving DecidableEq, Repr

structure Frontmatter where
  title : Option String := none
  kernelspec : Option Kernelspec := none
  exports : List ExportEntry := []
  deriving DecidableEq, Repr

def Kernelspec.decode : Value → Except DecodeError Kernelspec :=
  Value.record "Kernelspec" ["name", "display_name", "language"] {} fun k key v =>
    match key with
    | "name" => do pure { k with name := ← v.optional Value.text }
    | "display_name" => do pure { k with displayName := ← v.optional Value.text }
    | "language" => do pure { k with language := ← v.optional Value.text }
    | _ => .ok k

def ExportEntry.decode : Value → Except DecodeError ExportEntry :=
  Value.record "ExportEntry" ["format", "output", "markdown", "images"] {} fun e key v =>
    match key with
    | "format" => do pure { e with format := ← v.optional Value.text }
    | "output" => do pure { e with output := ← v.optional Value.text }
    | "markdown" => do pure { e with markdown := ← v.optional Value.text }
    | "images" => do pure { e with images := ← v.optional Value.text }
    | _ => .ok e

def Frontmatter.decode : Value → Except DecodeError Frontmatter :=
  Value.record "Frontmatter" ["title", "kernelspec", "exports"] {} fun f key v =>
    match key with
    | "title" => do pure { f with title := ← v.optional Value.text }
    | "kernelspec" => do pure { f with kernelspec := ← v.optional Kernelspec.decode }
    | "exports" => do pure { f with exports := ← (← v.items).mapM ExportEntry.decode }
    | _ => .ok f

def optionalField (key : String) (x : Option Value) : List (String × Value) :=
  (x.map fun v => (key, v)).toList

def Kernelspec.encode (k : Kernelspec) : Value :=
  .object (optionalField "name" (k.name.map .string) ++
    optionalField "display_name" (k.displayName.map .string) ++
    optionalField "language" (k.language.map .string))

def ExportEntry.encode (e : ExportEntry) : Value :=
  .object (optionalField "format" (e.format.map .string) ++
    optionalField "output" (e.output.map .string) ++
    optionalField "markdown" (e.markdown.map .string) ++
    optionalField "images" (e.images.map .string))

/-- Missing parts are left out, and so is an empty list of exports. -/
def Frontmatter.encode (f : Frontmatter) : Value :=
  .object (optionalField "title" (f.title.map .string) ++
    optionalField "kernelspec" (f.kernelspec.map Kernelspec.encode) ++
    if f.exports.isEmpty then [] else [("exports", .array (f.exports.map ExportEntry.encode))])

namespace ExportEntry

/-- Whether the entry asks for a notebook, by its format or, without one, by its output. -/
def isNotebook (e : ExportEntry) : Bool :=
  match e.format with
  | some format => Text.sameLetters format "ipynb"
  | none => match e.output with
    | some output => Text.endsWith ".ipynb".toList (Text.lowerAscii output.toList)
    | none => false

/-- A name that is not known counts as none. -/
def markdownFormat (e : ExportEntry) : Option MarkdownFormat :=
  e.markdown.bind fun s => (MarkdownFormat.read s).toOption

/-- A name that is not known counts as none. -/
def imageMode (e : ExportEntry) : Option ImageMode :=
  e.images.bind fun s => (ImageMode.read s).toOption

end ExportEntry

/-- The first entry that asks for a notebook. -/
def Frontmatter.notebookExport (f : Frontmatter) : Option ExportEntry :=
  f.exports.find? ExportEntry.isNotebook

end MystNotebook
