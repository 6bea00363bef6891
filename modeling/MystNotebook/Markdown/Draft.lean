import MystNotebook.Text.Line

/-! A Markdown text under construction. A draft only grows; whatever looks back sees no further than
the last two characters, so a part can be written on a page of its own that knows no more than these
of what stands before it. -/
namespace MystNotebook.Markdown

/-- Something that Markdown cannot express. -/
structure Diagnostic where
  nodeType : String
  message : String
  deriving DecidableEq, Repr

structure Draft where
  /-- At most two characters that stand before the page, the latest first. -/
  before : List Char := []
  /-- The page, the latest character first. -/
  page : List Char := []
  /-- Whether the next character starts a line. -/
  lineStart : Bool := true
  /-- The latest first. -/
  diagnostics : List Diagnostic := []
  deriving DecidableEq

namespace Draft

/-- The last two characters, the latest first. -/
def recent (d : Draft) : List Char :=
  match d.page, d.before with
  | a :: b :: _, _ => [a, b]
  | [a], b :: _ => [a, b]
  | [a], [] => [a]
  | [], before => before

def isEmpty (d : Draft) : Bool := d.page.isEmpty && d.before.isEmpty

def endsWith (d : Draft) (c : Char) : Bool :=
  match d.recent with
  | x :: _ => x == c
  | [] => false

def endsWithBlankLine (d : Draft) : Bool :=
  match d.recent with
  | x :: y :: _ => x == '\n' && y == '\n'
  | _ => false

/-- Appends a text and leaves open where lines start. -/
def push (d : Draft) (s : List Char) : Draft := { d with page := s.reverse ++ d.page }

def add (d : Draft) (s : String) : Draft := d.push s.toList

def atLineStart (d : Draft) : Draft := { d with lineStart := true }

/-- Appends to the running line. -/
def inline (d : Draft) (s : List Char) : Draft :=
  if s.isEmpty then d else { d.push s with lineStart := s.getLast? == some '\n' }

/-- Ends the running line, if there is one. -/
def newline (d : Draft) : Draft :=
  if !d.lineStart && !d.isEmpty then (d.push ['\n']).atLineStart else d

/-- Ends the running line and leaves an empty one, except at the very start. -/
def blankLine (d : Draft) : Draft :=
  let d := d.newline
  if !d.endsWithBlankLine && !d.isEmpty then d.push ['\n'] else d

def report (d : Draft) (nodeType message : String) : Draft :=
  { d with diagnostics := ⟨nodeType, message⟩ :: d.diagnostics }

/-- What `write` appends, taken off again; only its diagnostics stay. -/
def capture (d : Draft) (write : Draft → Draft) : List Char × Draft :=
  let written := write { d with before := d.recent, page := [], lineStart := true }
  (written.page.reverse,
    { d with lineStart := d.isEmpty || d.endsWith '\n', diagnostics := written.diagnostics })

/-- What `write` appends, trimmed and on one line. -/
def captureLine (d : Draft) (write : Draft → Draft) : List Char × Draft :=
  let (s, d) := d.capture write
  (Text.replace '\n' [' '] (Text.trim s), d)

end Draft
end MystNotebook.Markdown
