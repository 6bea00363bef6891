import MystNotebook.Frontmatter
import MystNotebook.Json.Printer
import MystNotebook.Notebook.Cell

/-! Notebooks and their JSON text. -/
namespace MystNotebook
open Json

/-- What a notebook says about its kernel, where nothing is missing. -/
structure KernelInfo where
  name : String
  displayName : String
  language : String
  deriving DecidableEq, Repr

structure Notebook where
  cells : List Cell
  language : String
  kernel : Option KernelInfo
  deriving DecidableEq, Repr

namespace Notebook

def defaultLanguage : String := "python"

/-- The language of the kernel is its name where it is not given. -/
def languageOf (k : Option Kernelspec) : String :=
  (k.bind fun k => k.language <|> k.name).getD defaultLanguage

/-- A kernel without a name is called by its language, and shown by its name where nothing else is
given. -/
def kernelOf (k : Kernelspec) : KernelInfo :=
  let language := languageOf (some k)
  let name := k.name.getD language
  { name := name, displayName := k.displayName.getD name, language := language }

def ofCells (cells : List Cell) (frontmatter : Option Frontmatter) : Notebook :=
  let kernelspec := frontmatter.bind (·.kernelspec)
  { cells := cells, language := languageOf kernelspec, kernel := kernelspec.map kernelOf }

def kernelJson (k : KernelInfo) : Value :=
  .object [("name", .string k.name), ("display_name", .string k.displayName),
    ("language", .string k.language)]

/-- The notebook in format 4.2. -/
def toJson (n : Notebook) : Value :=
  .object [
    ("cells", .array (n.cells.map Cell.toJson)),
    ("metadata", .object ([("language_info", .object [("name", .string n.language)])] ++
      optionalField "kernelspec" (n.kernel.map kernelJson))),
    ("nbformat", .number (.int 4)),
    ("nbformat_minor", .number (.int 2))]

/-- Indented, with a newline at the end. -/
def text (n : Notebook) : String := String.ofList (n.toJson.indented 0 ++ ['\n'])

end Notebook
end MystNotebook
