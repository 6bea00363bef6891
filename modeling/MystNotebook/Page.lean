import MystNotebook.Document.Decode
import MystNotebook.Frontmatter

/-! Pages: a document with its frontmatter. -/
namespace MystNotebook
open Json

structure Page where
  frontmatter : Frontmatter := {}
  document : List Node := []

/-- A page is an object with a document in its field `mdast`, or else the root of a document. -/
def Page.decode (v : Value) : Except DecodeError Page :=
  match v with
  | .object fs =>
    let f := Fields.ofList fs
    match f.get? "mdast" with
    | some document => do
      let frontmatter ← match f.get? "frontmatter" with
        | some v => Frontmatter.decode v
        | none => .ok {}
      .ok { frontmatter := frontmatter, document := ← Node.decodeDocument document }
    | none =>
      if f.get? "type" = some (.string "root") then do
        .ok { document := ← Node.decodeDocument v }
      else .error .notAPage
  | _ => .error .notAPage

def ImageData.fieldNames : List String := ["mime", "data"]

/-- Both fields have to be there. -/
def ImageData.decode (v : Value) : Except DecodeError ImageData := do
  let (mime, data) ← v.record "ImageDataEntry" fieldNames (none, none) fun r key v =>
    match key with
    | "mime" => do pure (some (← v.text), r.2)
    | "data" => do pure (r.1, some (← v.text))
    | _ => .ok r
  let missing := fun name => match v with
    | .array vs => DecodeError.tooShort vs.length "ImageDataEntry" fieldNames.length
    | _ => .missingField name
  match mime, data with
  | some mime, some data => .ok ⟨mime, data⟩
  | none, _ => .error (missing "mime")
  | _, none => .error (missing "data")

def ImageMap.decode (v : Value) : Except DecodeError ImageMap := do
  (← v.map).entries.mapM fun (url, v) => do pure (url, ← ImageData.decode v)

def MimeBundle.decode (v : Value) : Except DecodeError MimeBundle := do
  (← v.map).entries.mapM fun (mime, v) => do pure (mime, ← v.text)

end MystNotebook
