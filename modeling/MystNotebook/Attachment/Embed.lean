import MystNotebook.Attachment.ImageReference
import MystNotebook.Attachment.Name
import MystNotebook.Markdown.Link

/-! Known images of a Markdown text as attachments. References to them are redirected, two
references to one url share an attachment, and all other text stays as it is. -/
namespace MystNotebook.Attachment

/-- Backslashes before brackets of any kind are taken off. -/
def unescapeUrl : List Char → List Char
  | [] => []
  | [c] => [c]
  | c :: c' :: s =>
    if c = '\\' ∧ c' ∈ ['(', ')', '[', ']', '<', '>'] then c' :: unescapeUrl s
    else c :: unescapeUrl (c' :: s)

/-- The url that a reference means. -/
def ImageReference.target (r : ImageReference) : String := String.ofList (unescapeUrl r.url)

/-- The attachments so far and the name of each url that has one. -/
structure Naming where
  attachments : Attachments := .empty
  names : List (String × String) := []

/-- The name of a url, which is chosen when the url is met first. -/
def Naming.name (n : Naming) (url : String) (image : ImageData) : String × Naming :=
  match n.names.lookup url with
  | some name => (name, n)
  | none =>
    let name := freeName (baseName url) n.attachments
    (name, { attachments := n.attachments.insert name [(image.mime, image.data)]
             names := (url, name) :: n.names })

/-- A reference to an attachment, with the description as it was written. -/
def attachmentReference (alt : List Char) (name : String) : List Char :=
  ['!', '['] ++ alt ++ [']', '('] ++
    Markdown.schemedDestination "attachment:".toList name.toList ++ [')']

def redirect (images : ImageMap) (n : Naming) : List Segment → List Char × Naming
  | [] => ([], n)
  | .plain c :: rest =>
    let (s, n) := redirect images n rest
    (c :: s, n)
  | .image r :: rest =>
    match images.lookup r.target with
    | some image =>
      let (name, n) := n.name r.target image
      let (s, n) := redirect images n rest
      (attachmentReference r.alt name ++ s, n)
    | none =>
      let (s, n) := redirect images n rest
      (r.source ++ s, n)

/-- The text with its known images redirected, and their attachments if there are any. -/
def embed (images : ImageMap) (markdown : String) : String × Option Attachments :=
  let (s, n) := redirect images {} (segments markdown.toList)
  if n.attachments.isEmpty then (markdown, none) else (String.ofList s, some n.attachments)

end MystNotebook.Attachment
