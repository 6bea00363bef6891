import MystNotebook.Path
import MystNotebook.Text.CaseFold

/-! Media types by the extensions of files, as the program hands them to the export. The export
itself takes them as they are given. -/
namespace MystNotebook.MediaType
open Text

def known : List (String × String) :=
  [("png", "image/png"), ("jpg", "image/jpeg"), ("jpeg", "image/jpeg"), ("gif", "image/gif"),
   ("svg", "image/svg+xml"), ("webp", "image/webp"), ("bmp", "image/bmp"), ("ico", "image/x-icon"),
   ("tif", "image/tiff"), ("tiff", "image/tiff"), ("avif", "image/avif"),
   ("pdf", "application/pdf"), ("html", "text/html"), ("txt", "text/plain"),
   ("json", "application/json"), ("mp4", "video/mp4"), ("zip", "application/zip")]

/-- The case of the extension does not matter. -/
def ofPath (p : Path) : String :=
  match p.extensionChars with
  | some extension =>
    (known.lookup (String.ofList (foldCase extension))).getD "application/octet-stream"
  | none => "application/octet-stream"

end MystNotebook.MediaType
