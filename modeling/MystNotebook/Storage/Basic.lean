import MystNotebook.Path

/-! What an export needs of the place where its files are: to read, to write and to look around, and
a log for what does not stop it. -/
namespace MystNotebook

inductive StorageError where
  | notFound
  | alreadyExists
  | notADirectory
  | isADirectory
  /-- A path of at least 4096 bytes, or a name in it of more than 255. -/
  | nameTooLong
  | nulInName
  /-- The contents are no UTF-8 text. -/
  | notText
  | other (description : String)
  deriving DecidableEq, Repr

def StorageError.message : StorageError → String
  | .notFound => "No such file or directory (os error 2)"
  | .alreadyExists => "File exists (os error 17)"
  | .notADirectory => "Not a directory (os error 20)"
  | .isADirectory => "Is a directory (os error 21)"
  | .nameTooLong => "File name too long (os error 36)"
  | .nulInName => "file name contained an unexpected NUL byte"
  | .notText => "stream did not contain valid UTF-8"
  | .other description => description

inductive EntryKind where
  | file
  | directory
  deriving DecidableEq, Repr

inductive LogLevel where
  | debug
  | warn
  deriving DecidableEq, Repr

def LogLevel.name : LogLevel → String
  | .debug => "DEBUG"
  | .warn => "WARN"

class Storage (m : Type → Type) where
  kindOf : Path → m (Option EntryKind)
  readBytes : Path → m (Except StorageError ByteArray)
  write : Path → String → m (Except StorageError Unit)
  /-- Makes one directory, in one that is there. -/
  makeDirectory : Path → m (Except StorageError Unit)
  /-- The names in a directory, in any order. -/
  list : Path → m (Except StorageError (List String))
  log : LogLevel → String → m Unit

namespace Storage

variable {m : Type → Type} [Monad m] [Storage m]

def isDirectory (p : Path) : m Bool := do return (← kindOf p) == some .directory

def doesExist (p : Path) : m Bool := do return (← kindOf p).isSome

def readText (p : Path) : m (Except StorageError String) := do
  match ← readBytes p with
  | .error e => return .error e
  | .ok bytes => match String.fromUTF8? bytes with
    | some s => return .ok s
    | none => return .error .notText

/-- Makes a directory, or finds that it is there already. -/
def ensureDirectory (p : Path) : m (Except StorageError Unit) := do
  match ← makeDirectory p with
  | .ok () => return .ok ()
  | .error e => if ← isDirectory p then return .ok () else return .error e

/-- Makes a directory and the directories on the way to it, of which there are at most `depth`. -/
def ensureTree : Nat → Path → m (Except StorageError Unit)
  | 0, p => ensureDirectory p
  | depth + 1, p => do
    if p.text.isEmpty then return .ok ()
    match ← makeDirectory p with
    | .ok () => return .ok ()
    | .error .notFound =>
      match p.parent with
      | none => return .error (.other "failed to create whole tree")
      | some parent =>
        match ← ensureTree depth parent with
        | .error e => return .error e
        | .ok () => ensureDirectory p
    | .error e => if ← isDirectory p then return .ok () else return .error e

def ensureDirectories (p : Path) : m (Except StorageError Unit) := ensureTree p.text.length p

end Storage
end MystNotebook
