import MystNotebook.Attachment.Basic
import MystNotebook.Text.Line

/-! Names for attachments: the last part of a url, with a number where that is taken. -/
namespace MystNotebook.Attachment
open Text

/-- The url without query and fragment. -/
def urlPath (url : List Char) : List Char := url.takeWhile fun c => c ≠ '?' && c ≠ '#'

/-- What follows the last slash, where slashes at the end do not count. -/
def lastSegment (path : List Char) : List Char :=
  (((path.reverse.dropWhile (· == '/')).takeWhile (· ≠ '/')).reverse)

def baseName (url : String) : String :=
  let segment := lastSegment (urlPath url.toList)
  if segment.isEmpty then "image" else String.ofList segment

/-- A name as stem and extension with its dot; a dot at the start makes no extension. -/
def splitExtension (name : List Char) : List Char × List Char :=
  let extension := (name.reverse.takeWhile (· ≠ '.')).reverse
  let stem := name.take (name.length - extension.length - 1)
  if stem.isEmpty then (name, []) else (stem, '.' :: extension)

def numberedName (name : String) (n : Nat) : String :=
  let (stem, extension) := splitExtension name.toList
  String.ofList (stem ++ ['_'] ++ (toString n).toList ++ extension)

/-- The name, or the first numbered one that is free; one more than are taken are enough to try. -/
def freeName (name : String) (taken : Attachments) : String :=
  if !taken.contains name then name
  else
    let candidates := (List.range (taken.size + 1)).map fun n => numberedName name (n + 1)
    (candidates.find? fun candidate => !taken.contains candidate).getD name

end MystNotebook.Attachment
