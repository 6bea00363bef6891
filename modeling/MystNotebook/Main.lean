import MystNotebook.CommandLine.Run
import MystNotebook.Project.MediaType

/-! The program: the command line on the files of the machine. -/
namespace MystNotebook.Main

/-- Runs on the machine, with what has been logged, the latest first. -/
abbrev Machine := StateT (List (LogLevel × String)) IO

def storageError : IO.Error → StorageError
  | .noFileOrDirectory _ _ _ => .notFound
  | .alreadyExists _ _ _ => .alreadyExists
  | .inappropriateType _ 20 _ => .notADirectory
  | .inappropriateType _ 21 _ => .isADirectory
  | .invalidArgument _ 36 _ => .nameTooLong
  | .noSuchThing _ _ _ => .notFound
  | e => .other (toString e)

def attempt {α : Type} (action : IO α) : Machine (Except StorageError α) := fun log => do
  match ← action.toBaseIO with
  | .ok a => return (.ok a, log)
  | .error e => return (.error (storageError e), log)

/-- A directory can be listed, and any other file can be opened. -/
def kindOf (p : Path) : Machine (Option EntryKind) := do
  match ← attempt (System.mkFilePath [p.text]).readDir with
  | .ok _ => return some .directory
  | .error _ =>
    match ← attempt (IO.FS.Handle.mk p.text .read) with
    | .ok _ => return some .file
    | .error _ => return none

instance : Storage Machine where
  kindOf := kindOf
  readBytes p := attempt (IO.FS.readBinFile p.text)
  write p s := attempt (IO.FS.writeFile p.text s)
  makeDirectory p := attempt (IO.FS.createDir p.text)
  list p := attempt do return (← (System.mkFilePath [p.text]).readDir).toList.map (·.fileName)
  log level message := modify fun log => (level, message) :: log

def perform (arguments : List String) : IO UInt8 := do
  let (outcome, log) ←
    (CommandLine.run MediaType.ofPath arguments : Machine CommandLine.Outcome).run []
  for (level, message) in log.reverse do
    if CommandLine.shows arguments level then IO.eprintln (level.name ++ " " ++ message)
  IO.print outcome.output
  IO.eprint outcome.errorText
  return outcome.exitCode

end MystNotebook.Main

def main (arguments : List String) : IO UInt32 := do
  return (← MystNotebook.Main.perform arguments).toUInt32
