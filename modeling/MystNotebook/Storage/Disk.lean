import MystNotebook.Storage.Basic

/-! A storage in memory: a table of files and directories by the names that lead to them from the
root. -/
namespace MystNotebook

inductive Entry where
  | file (bytes : ByteArray)
  | directory

instance : DecidableEq Entry
  | .file a, .file b => decidable_of_iff (a.data = b.data) (by simp [ByteArray.ext_iff])
  | .directory, .directory => isTrue rfl
  | .file _, .directory => isFalse nofun
  | .directory, .file _ => isFalse nofun

def Entry.kind : Entry → EntryKind
  | .file _ => .file
  | .directory => .directory

/-- The names from the root. -/
abbrev Location := List String

structure Disk where
  entries : List (Location × Entry)
  workingDirectory : Location
  /-- The latest first. -/
  log : List (LogLevel × String) := []

namespace Disk

/-- The root is always there. -/
def entry? (d : Disk) (location : Location) : Option Entry :=
  if location.isEmpty then some .directory else d.entries.lookup location

/-- Follows the parts of a path; each of them is looked up in a directory. -/
def walk (d : Disk) (location : Location) : List (List Char) → Except StorageError Location
  | [] => .ok location
  | part :: rest =>
    match d.entry? location with
    | none => .error .notFound
    | some (.file _) => .error .notADirectory
    | some .directory =>
      if Path.isHollow part then d.walk location rest
      else if part = ['.', '.'] then d.walk location.dropLast rest
      else if 255 < (String.ofList part).utf8ByteSize then .error .nameTooLong
      else d.walk (location ++ [String.ofList part]) rest

/-- Where a path leads, whether or not there is anything. -/
def locate (d : Disk) (p : Path) : Except StorageError Location :=
  if p.text.isEmpty then .error .notFound
  else if p.text.contains '\x00' then .error .nulInName
  else if 4096 ≤ p.text.utf8ByteSize then .error .nameTooLong
  else d.walk (if p.isAbsolute then [] else d.workingDirectory) p.parts

def find (d : Disk) (p : Path) : Except StorageError Entry := do
  match d.entry? (← d.locate p) with
  | some e => .ok e
  | none => .error .notFound

def put (location : Location) (e : Entry) : List (Location × Entry) → List (Location × Entry)
  | [] => [(location, e)]
  | (l, x) :: rest => if l = location then (l, e) :: rest else (l, x) :: put location e rest

def set (d : Disk) (location : Location) (e : Entry) : Disk :=
  { d with entries := put location e d.entries }

/-- The path without the slashes that it ends with. -/
def withoutSlashes (p : Path) : Path :=
  ⟨String.ofList ((p.text.toList.reverse.dropWhile (· == '/')).reverse)⟩

def endsWithSlash (p : Path) : Bool := p.text.toList.getLast? == some '/'

/-- A path that ends with a slash names a directory and is never written. -/
def writeFile (d : Disk) (p : Path) (s : String) : Except StorageError Disk :=
  if endsWithSlash p then do
    let _ ← d.locate (withoutSlashes p)
    .error .isADirectory
  else do
    let location ← d.locate p
    match d.entry? location with
    | some .directory => .error .isADirectory
    | _ => .ok (d.set location (.file s.toUTF8))

def makeDirectory (d : Disk) (p : Path) : Except StorageError Disk := do
  let location ← d.locate (if endsWithSlash p then withoutSlashes p else p)
  match d.entry? location with
  | some _ => .error .alreadyExists
  | none => .ok (d.set location .directory)

def namesIn (d : Disk) (location : Location) : List String :=
  d.entries.filterMap fun (l, _) =>
    match l.getLast? with
    | some name => if l.dropLast = location then some name else none
    | none => none

def list (d : Disk) (p : Path) : Except StorageError (List String) := do
  let location ← d.locate p
  match d.entry? location with
  | some .directory => .ok (d.namesIn location)
  | some (.file _) => .error .notADirectory
  | none => .error .notFound

def readBytes (d : Disk) (p : Path) : Except StorageError ByteArray := do
  match ← d.find p with
  | .file bytes => .ok bytes
  | .directory => .error .isADirectory

/-- Keeps the change that worked. -/
def change (next : Disk → Except StorageError Disk) : StateM Disk (Except StorageError Unit) :=
  fun d => match next d with
    | .ok d' => (.ok (), d')
    | .error e => (.error e, d)

instance : Storage (StateM Disk) where
  kindOf p := return ((← get).find p).toOption.map Entry.kind
  readBytes p := return (← get).readBytes p
  write p s := change (·.writeFile p s)
  makeDirectory p := change (·.makeDirectory p)
  list p := return (← get).list p
  log level message := modify fun d => { d with log := (level, message) :: d.log }

end Disk
end MystNotebook
