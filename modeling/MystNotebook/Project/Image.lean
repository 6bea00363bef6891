import MystNotebook.Document.Walk
import MystNotebook.Attachment.Basic
import MystNotebook.Storage.Basic
import MystNotebook.Text.Base64
import MystNotebook.Text.Line

/-! The local images of a document, read as base64 text. An image that cannot be found or read is
logged and left out. The media type of a file is looked up elsewhere. -/
namespace MystNotebook.Project
open Text

def isLocal (url : String) : Bool :=
  let url := lowerAscii (trim url.toList)
  !(url.isEmpty || startsWith "http://".toList url || startsWith "https://".toList url ||
    startsWith "data:".toList url)

/-- The url of an image node, also of one that could not be read as such. -/
def imageUrl? : Node → Option String
  | .leaf (.image i) => some i.url
  | .parent (.other "image" fields) _ =>
    match fields.get? "url" with
    | some (.string url) => some url
    | _ => none
  | _ => none

/-- The local ones, each once, in the order of the document. -/
def imageUrls (ns : List Node) : List String :=
  ((Node.preorderAll ns).filterMap imageUrl?).foldl
    (fun urls url => if isLocal url && !urls.contains url then urls ++ [url] else urls) []

/-- The file that a url means. A url that starts with a slash is taken from the root of the sources,
any other from the directory of the document; query and fragment do not matter. -/
def imagePath (url : String) (document sourceRoot : Path) : Option Path :=
  let path := trim (url.toList.takeWhile fun c => c ≠ '?' && c ≠ '#')
  match path with
  | [] => none
  | '/' :: rest =>
    let rooted := rest.dropWhile (· == '/')
    if rooted.isEmpty then none else some (sourceRoot.join ⟨String.ofList rooted⟩)
  | path => some ((document.parent.getD ⟨""⟩).join ⟨String.ofList path⟩)

variable (mediaType : Path → String)

def encodeImage (p : Path) (bytes : ByteArray) : ImageData :=
  { mime := mediaType p, data := String.ofList (base64 bytes.toList) }

variable {m : Type → Type} [Monad m] [Storage m]

def readImage (url : String) (document sourceRoot : Path) : m (Option ImageData) := do
  match imagePath url document sourceRoot with
  | none =>
    Storage.log .warn ("Cannot resolve image '" ++ url ++ "' in " ++ document.text)
    return none
  | some path =>
    match ← Storage.readBytes path with
    | .ok bytes => return some (encodeImage mediaType path bytes)
    | .error e =>
      Storage.log .warn
        ("Cannot read image '" ++ url ++ "' (" ++ path.text ++ "): " ++ e.message)
      return none

def readImages (document sourceRoot : Path) : List String → m ImageMap
  | [] => return []
  | url :: urls => do
    let image ← readImage mediaType url document sourceRoot
    let images ← readImages document sourceRoot urls
    return match image with
      | some image => (url, image) :: images
      | none => images

def collectImages (ns : List Node) (document sourceRoot : Path) : m ImageMap :=
  readImages mediaType document sourceRoot (imageUrls ns)

end MystNotebook.Project
