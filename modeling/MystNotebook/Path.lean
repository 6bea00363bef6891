/-! File paths as they are written. Nothing is normalised in the text; the parts between slashes are
what the operations work on, and an empty part or a single dot names nothing. -/
namespace MystNotebook

structure Path where
  text : String
  deriving DecidableEq, Repr

namespace Path

/-- The parts between the slashes, at least one. -/
def splitSlashes : List Char → List (List Char)
  | [] => [[]]
  | c :: cs =>
    if c = '/' then [] :: splitSlashes cs
    else match splitSlashes cs with
      | [] => [[c]]
      | part :: parts => (c :: part) :: parts

def joinSlashes : List (List Char) → List Char
  | [] => []
  | [part] => part
  | part :: parts => part ++ ['/'] ++ joinSlashes parts

def isAbsolute (p : Path) : Bool :=
  match p.text.toList with
  | '/' :: _ => true
  | _ => false

def parts (p : Path) : List (List Char) := splitSlashes p.text.toList

/-- The first part of an absolute path is empty and stands for the root. -/
def ofParts : List (List Char) → Path
  | [[]] => ⟨"/"⟩
  | parts => ⟨String.ofList (joinSlashes parts)⟩

/-- Whether a part names nothing. -/
def isHollow (part : List Char) : Bool := part = [] || part = ['.']

inductive Component where
  | root
  /-- A single dot at the start of a relative path. -/
  | here
  | up
  | name (text : String)
  deriving DecidableEq, Repr

def componentOf (part : List Char) : Option Component :=
  if isHollow part then none
  else if part = ['.', '.'] then some .up
  else some (.name (String.ofList part))

def components (p : Path) : List Component :=
  match p.parts with
  | [] :: rest => (if rest.isEmpty then [] else [.root]) ++ rest.filterMap componentOf
  | ['.'] :: rest => .here :: rest.filterMap componentOf
  | parts => parts.filterMap componentOf

def Component.rank : Component → Nat
  | .root => 0
  | .here => 1
  | .up => 2
  | .name _ => 3

def Component.le : Component → Component → Bool
  | .name a, .name b => decide (a ≤ b)
  | a, b => a.rank ≤ b.rank

def componentsLe : List Component → List Component → Bool
  | [], _ => true
  | _ :: _, [] => false
  | a :: as, b :: bs => if a = b then componentsLe as bs else a.le b

/-- The order of paths compares them component by component. -/
def le (a b : Path) : Bool := componentsLe a.components b.components

/-- The start that no operation takes apart, the root or a dot at the front, and the other parts
less the hollow ones at the end. -/
def body (p : Path) : List (List Char) × List (List Char) :=
  let strip := fun ps : List (List Char) => (ps.reverse.dropWhile isHollow).reverse
  match p.parts with
  | [] :: part :: rest => ([[]], strip (part :: rest))
  | ['.'] :: rest => ([['.']], strip rest)
  | parts => ([], strip parts)

/-- The path without its last component. -/
def parent (p : Path) : Option Path :=
  match p.body with
  | (start, []) => if start = [['.']] then some ⟨""⟩ else none
  | (start, rest) =>
    let kept := (rest.dropLast.reverse.dropWhile isHollow).reverse
    some (if start = [] ∧ kept = [] then ⟨""⟩ else ofParts (start ++ kept))

/-- The name at the end, unless the path ends by going up. -/
def fileNameChars (p : Path) : Option (List Char) :=
  match p.body.2.getLast? with
  | some name => if name = ['.', '.'] then none else some name
  | none => none

/-- A name as stem and extension. A dot at the start makes no extension. -/
def splitName (name : List Char) : List Char × Option (List Char) :=
  let after := (name.reverse.takeWhile (· ≠ '.')).reverse
  if after.length = name.length then (name, none)
  else
    let before := name.take (name.length - after.length - 1)
    if before.isEmpty then (name, none) else (before, some after)

def fileName (p : Path) : Option String := p.fileNameChars.map String.ofList

def stem (p : Path) : Option String := p.fileNameChars.map fun n => String.ofList (splitName n).1

def extensionChars (p : Path) : Option (List Char) := p.fileNameChars.bind fun n => (splitName n).2

def extension (p : Path) : Option String := p.extensionChars.map String.ofList

/-- An absolute path takes the place of the base. -/
def join (base : Path) (p : Path) : Path :=
  if p.isAbsolute || base.text.isEmpty then p
  else match base.text.toList.getLast? with
    | some '/' => ⟨base.text ++ p.text⟩
    | _ => ⟨base.text ++ "/" ++ p.text⟩

/-- Puts the extension behind the stem of the name, or leaves a path without a name as it is. -/
def setExtension (p : Path) (extension : String) : Path :=
  match p.fileNameChars with
  | none => p
  | some name =>
    let (start, rest) := p.body
    ofParts (start ++ rest.dropLast ++ [(splitName name).1 ++ ['.'] ++ extension.toList])

/-- As many characters as the old extension has are cut off at the end before the new one is set. -/
def withExtension (p : Path) (extension : String) : Path :=
  match p.extensionChars with
  | none => p.setExtension extension
  | some old =>
    let kept : Path := ⟨String.ofList (p.text.toList.take (p.text.length - old.length))⟩
    kept.setExtension extension

/-- What follows the components of `base`, if the path starts with them. -/
def relativeTo (p base : Path) : Option Path :=
  let rest := p.components.drop base.components.length
  if base.components.isPrefixOf p.components then
    some (ofParts (rest.filterMap fun
      | .name text => some text.toList
      | .up => some ['.', '.']
      | .here => some ['.']
      | .root => none))
  else none

end Path
end MystNotebook
