import MystNotebook.Options
import MystNotebook.Path

/-! The arguments of the command line. Options stand before or after the input; a value follows its
option or is attached to it; every option is given once; after a double dash nothing is an option.
-/
namespace MystNotebook.CommandLine

inductive Command where
  | convert
  | init (directory : Path) (force : Bool)
  | schema
  deriving DecidableEq, Repr

structure Arguments where
  command : Command := .convert
  input : Option Path := none
  output : Option Path := none
  jobs : Option Nat := none
  recursive : Bool := false
  markdown : Option MarkdownFormat := none
  dropSolutions : Bool := false
  images : Option ImageMode := none
  sourceRoot : Option Path := none
  settings : Option Path := none
  verbose : Bool := false
  quiet : Bool := false
  deriving DecidableEq, Repr

/-- What the arguments ask for other than a run. -/
inductive Refusal where
  | version
  | help
  | misuse
  deriving DecidableEq, Repr

abbrev Parsed (α : Type) := Except Refusal α

inductive Flag where
  | recursive | dropSolutions | verbose | quiet
  deriving DecidableEq, Repr

inductive Setting where
  | output | jobs | markdown | images | sourceRoot | settings
  deriving DecidableEq, Repr

inductive Switch where
  | flag (flag : Flag)
  | option (option : Setting)
  | version
  | help

def switchOfLetter : Char → Option Switch
  | 'o' => some (.option .output)
  | 'j' => some (.option .jobs)
  | 'r' => some (.flag .recursive)
  | 'v' => some (.flag .verbose)
  | 'q' => some (.flag .quiet)
  | 'h' => some .help
  | 'V' => some .version
  | _ => none

def switchOfName : String → Option Switch
  | "output" => some (.option .output)
  | "jobs" => some (.option .jobs)
  | "recursive" => some (.flag .recursive)
  | "markdown" => some (.option .markdown)
  | "drop-solutions" => some (.flag .dropSolutions)
  | "images" => some (.option .images)
  | "source-root" => some (.option .sourceRoot)
  | "config" => some (.option .settings)
  | "verbose" => some (.flag .verbose)
  | "quiet" => some (.flag .quiet)
  | "help" => some .help
  | "version" => some .version
  | _ => none

/-- Sets what may be set once. -/
def once {α : Type} (old : Option α) (new : Option α) : Parsed (Option α) :=
  match old, new with
  | none, some x => .ok (some x)
  | _, _ => .error .misuse

def pathValue (s : String) : Option Path := if s.isEmpty then none else some ⟨s⟩

/-- A count of at most 64 bits, with or without a plus sign. -/
def countValue (s : String) : Option Nat :=
  let digits := match s.toList with
    | '+' :: ds => ds
    | ds => ds
  if digits.isEmpty || !digits.all Char.isDigit then none
  else
    let n := digits.foldl (fun n c => 10 * n + (c.toNat - '0'.toNat)) 0
    if n < UInt64.size then some n else none

def markdownValue (s : String) : Option MarkdownFormat :=
  [MarkdownFormat.myst, .commonMark].find? (·.name == s)

def imagesValue (s : String) : Option ImageMode :=
  [ImageMode.reference, .attachment].find? (·.name == s)

def Arguments.setOption (a : Arguments) (o : Setting) (s : String) : Parsed Arguments :=
  match o with
  | .output => do pure { a with output := ← once a.output (pathValue s) }
  | .jobs => do pure { a with jobs := ← once a.jobs (countValue s) }
  | .markdown => do pure { a with markdown := ← once a.markdown (markdownValue s) }
  | .images => do pure { a with images := ← once a.images (imagesValue s) }
  | .sourceRoot => do pure { a with sourceRoot := ← once a.sourceRoot (pathValue s) }
  | .settings => do pure { a with settings := ← once a.settings (pathValue s) }

def Arguments.setFlag (a : Arguments) (f : Flag) : Parsed Arguments :=
  match f with
  | .recursive => if a.recursive then .error .misuse else .ok { a with recursive := true }
  | .dropSolutions =>
    if a.dropSolutions then .error .misuse else .ok { a with dropSolutions := true }
  | .verbose => if a.verbose then .error .misuse else .ok { a with verbose := true }
  | .quiet => if a.quiet then .error .misuse else .ok { a with quiet := true }

def Arguments.setInput (a : Arguments) (s : String) : Parsed Arguments := do
  pure { a with input := ← once a.input (pathValue s) }

/-- A single dash is a value like any other. -/
def looksLikeOption (s : String) : Bool :=
  match s.toList with
  | '-' :: _ :: _ => true
  | _ => false

/-- The letters behind a single dash; an option takes what is left of them as its value, or else
waits for the next argument. -/
def readLetters (a : Arguments) : List Char → Parsed (Arguments × Option Setting)
  | [] => .ok (a, none)
  | c :: rest =>
    match switchOfLetter c with
    | none => .error .misuse
    | some .help => .error .help
    | some .version => .error .version
    | some (.flag f) => do readLetters (← a.setFlag f) rest
    | some (.option o) =>
      match rest with
      | [] => .ok (a, some o)
      | '=' :: value => do pure (← a.setOption o (String.ofList value), none)
      | value => do pure (← a.setOption o (String.ofList value), none)

/-- The name behind two dashes, perhaps with a value attached. -/
def readName (a : Arguments) (s : List Char) : Parsed (Arguments × Option Setting) :=
  let name := s.takeWhile (· != '=')
  let value := match s.drop name.length with
    | _ :: value => some (String.ofList value)
    | [] => none
  match switchOfName (String.ofList name), value with
  | some .help, none => .error .help
  | some .version, none => .error .version
  | some (.flag f), none => do pure (← a.setFlag f, none)
  | some (.option o), none => .ok (a, some o)
  | some (.option o), some value => do pure (← a.setOption o value, none)
  | _, _ => .error .misuse

/-- The arguments behind `init`. -/
def readInit (directory : Option Path) (force onlyValues : Bool) : List String → Parsed Command
  | [] => .ok (.init (directory.getD ⟨"."⟩) force)
  | s :: rest =>
    if !onlyValues && s = "--" then readInit directory force true rest
    else if !onlyValues && looksLikeOption s then
      if s = "--force" ∧ !force then readInit directory true onlyValues rest
      else if s = "--help" ∨ s.toList.take 2 = ['-', 'h'] then .error .help
      else .error .misuse
    else
      match directory, pathValue s with
      | none, some p => readInit (some p) force onlyValues rest
      | _, _ => .error .misuse

def readSchema : List String → Parsed Command
  | [] => .ok .schema
  | "--" :: rest => if rest.isEmpty then .ok .schema else .error .misuse
  | s :: _ => if s = "--help" ∨ s.toList.take 2 = ['-', 'h'] then .error .help else .error .misuse

def readHelpTopic : List String → Refusal
  | [] | ["init"] | ["schema"] | ["help"] => .help
  | _ => .misuse

/-- There is help on `help`, and on its topics once more. -/
def readHelp : List String → Refusal
  | "help" :: topics => readHelpTopic topics
  | topics => readHelpTopic topics

/-- Reads the arguments one by one; `waiting` is an option that still needs its value. -/
def readArguments (a : Arguments) (waiting : Option Setting) : List String → Parsed Arguments
  | [] => if waiting.isSome then .error .misuse else .ok a
  | s :: rest =>
    match waiting with
    | some o =>
      if looksLikeOption s then .error .misuse
      else do readArguments (← a.setOption o s) none rest
    | none =>
      if s = "init" then do pure { a with command := ← readInit none false false rest }
      else if s = "schema" then do pure { a with command := ← readSchema rest }
      else if s = "help" then .error (readHelp rest)
      else if s = "--" then rest.foldlM Arguments.setInput a
      else match s.toList with
        | '-' :: '-' :: name => do
          let (a, waiting) ← readName a name
          readArguments a waiting rest
        | '-' :: c :: letters => do
          let (a, waiting) ← readLetters a (c :: letters)
          readArguments a waiting rest
        | _ => do readArguments (← a.setInput s) none rest

/-- An export needs an input, and nothing is both verbose and quiet. -/
def Arguments.parse (arguments : List String) : Parsed Arguments := do
  let a ← readArguments {} none arguments
  if a.verbose && a.quiet then .error .misuse
  else if a.command = .convert ∧ a.input.isNone then .error .misuse
  else .ok a

end MystNotebook.CommandLine
