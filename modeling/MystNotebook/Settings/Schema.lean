import MystNotebook.Json.Printer

/-! The JSON schema of the settings file. -/
namespace MystNotebook.Settings
open Json

/-- A property that may be missing or null. -/
def property (description type : String) (rest : List (String × Value)) : Value :=
  .object ([("description", .string description),
    ("type", .array [.string type, .string "null"])] ++ rest)

def objectSchema (description : String) (properties : List (String × Value)) : Value :=
  .object [("description", .string description), ("type", .string "object"),
    ("properties", .object properties)]

def reference (description name : String) : Value :=
  .object [("description", .string description), ("$ref", .string ("#/$defs/" ++ name))]

def batchSchema : Value :=
  objectSchema "Batch export configuration" [
    ("jobs", property "Number of parallel jobs (default: number of CPUs)" "integer"
      [("format", .string "uint"), ("minimum", .number (.int 0))]),
    ("recursive", property "Process directories recursively (default: false)" "boolean" [])]

def imageSchema : Value :=
  objectSchema "Image handling configuration" [
    ("mode", property
      ("Image mode: \"reference\" (keep URLs) or \"attachment\" (embed local images) " ++
        "(default: \"reference\")")
      "string" []),
    ("source_root", property
      "Directory that `/`-prefixed image URLs are relative to, resolved against this file"
      "string" [])]

def markdownSchema : Value :=
  objectSchema "Markdown cell configuration" [
    ("drop_solutions", property "Remove solution blocks when writing CommonMark (default: false)"
      "boolean" []),
    ("format", property
      "Markdown dialect: \"myst\" (keep directives and roles) or \"commonmark\" (default: \"myst\")"
      "string" [])]

def schema : Value :=
  .object [
    ("$schema", .string "https://json-schema.org/draft/2020-12/schema"),
    ("title", .string "Config"),
    ("description", .string "Root configuration structure"),
    ("type", .string "object"),
    ("properties", .object [
      ("batch", reference "Batch export configuration" "BatchConfig"),
      ("images", reference "Image handling configuration" "ImagesConfig"),
      ("markdown", reference "Markdown cell configuration" "MarkdownConfig")]),
    ("$defs", .object [
      ("BatchConfig", batchSchema), ("ImagesConfig", imageSchema),
      ("MarkdownConfig", markdownSchema)])]

end MystNotebook.Settings
