import MystNotebook.Attachment.Basic
import MystNotebook.Text.Line

/-! Notebook cells. The source of a cell is a list of lines, each of which ends in a newline except
perhaps the last. -/
namespace MystNotebook

inductive Cell where
  | markdown (source : List String) (attachments : Option Attachments)
  | code (source : List String)
  deriving DecidableEq, Repr

namespace Cell

def splitSource (text : List Char) : List String := (Text.fullLines text).map String.ofList

theorem join_splitSource (s : List Char) : String.join (splitSource s) = String.ofList s := by
  rw [← String.toList_inj, String.toList_join]
  simp [splitSource, List.flatMap_def, Text.flatten_fullLines]

/-- Newlines at the end of the text are dropped. -/
def ofMarkdown (text : String) (attachments : Option Attachments) : Cell :=
  .markdown (splitSource (Text.trimNewlines text.toList)) attachments

/-- A cell that has not been run. -/
def ofCode (text : String) : Cell := .code (splitSource text.toList)

def source : Cell → List String
  | .markdown source _ | .code source => source

def sourceText (c : Cell) : String := String.join c.source

theorem sourceText_ofCode (text : String) : (ofCode text).sourceText = text := by
  simp [sourceText, source, ofCode, join_splitSource]

def isCode : Cell → Bool
  | .code _ => true
  | .markdown _ _ => false

def attachments : Cell → Option Attachments
  | .markdown _ attachments => attachments
  | .code _ => none

/-- A Markdown cell with nothing but blanks. -/
def isBlank (c : Cell) : Bool := !c.isCode && c.source.all fun line => line.toList.all Text.isBlank

def sourceJson (source : List String) : Json.Value := .array (source.map .string)

def toJson : Cell → Json.Value
  | .markdown source attachments =>
    .object ([("cell_type", .string "markdown"), ("metadata", .object []),
      ("source", sourceJson source)] ++
      (attachments.map fun a => ("attachments", a.toJson)).toList)
  | .code source =>
    .object [("cell_type", .string "code"), ("execution_count", .null), ("metadata", .object []),
      ("outputs", .array []), ("source", sourceJson source)]

end Cell
end MystNotebook
