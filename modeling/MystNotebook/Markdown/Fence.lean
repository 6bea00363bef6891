import MystNotebook.Document.Node
import MystNotebook.Text.Line

/-! Fenced blocks: code between backticks and directives between colons, with their option lines. -/
namespace MystNotebook.Markdown
open Text

def optionLine (key value : String) : List Char :=
  [':'] ++ key.toList ++ [':'] ++ (if value.isEmpty then [] else ' ' :: value.toList) ++ ['\n']

def optionLines (options : List (String × String)) : List Char :=
  options.flatMap fun (key, value) => optionLine key value

/-- Longer than every run of backticks in the content. -/
def backtickCount (content : List Char) : Nat := max 3 (longestRun '`' 0 content + 1)

def backtickFence (content : List Char) : List Char := List.replicate (backtickCount content) '`'

/-- The text, with a newline behind it unless it is empty or has one. -/
def closedLine (s : List Char) : List Char :=
  if s.isEmpty || s.getLast? == some '\n' then s else s ++ ['\n']

def fencedText (info : List Char) (options : List (String × String)) (value : List Char) :
    List Char :=
  let fence := backtickFence value
  fence ++ info ++ ['\n'] ++ optionLines options ++ closedLine value ++ fence ++ ['\n']

def numberList (separator : String) (ns : List UInt32) : String :=
  separator.intercalate (ns.map fun n => toString n.toNat)

def some? (key : String) (value : Option String) : List (String × String) :=
  (value.map fun v => (key, v)).toList

/-- The options of a code block that a plain fence cannot carry. -/
def codeOptions (c : Code) : List (String × String) :=
  some? "label" c.target.label ++ some? "filename" c.filename ++
    (if c.showLineNumbers == some true then [("linenos", "")] else []) ++
    some? "lineno-start" (c.startingLineNumber.map fun n => toString n.toNat) ++
    some? "emphasize-lines" (c.emphasizeLines.map (numberList ",")) ++ some? "class" c.cssClass

def codeBlockInfo (lang : Option String) : List Char :=
  "\x7bcode-block\x7d".toList ++ match lang with
    | some lang => ' ' :: lang.toList
    | none => []

def plainInfo (c : Code) : List Char :=
  (c.lang.getD "").toList ++ match c.metadata with
    | some info => ' ' :: info.toList
    | none => []

def codeText (c : Code) : List Char :=
  let options := codeOptions c
  fencedText (if options.isEmpty then plainInfo c else codeBlockInfo c.lang) options c.value.toList

def mathText (m : Math) : List Char :=
  match m.target.label with
  | some label => fencedText "\x7bmath\x7d".toList [("label", label)] m.value.toList
  | none =>
    let value := m.value.toList
    "$$\n".toList ++ value ++ (if value.getLast? == some '\n' then [] else ['\n']) ++ "$$\n".toList

/-- The fence of a directive with `depth` directives nested inside it. -/
def colonFence (depth : Nat) : List Char := List.replicate (3 + depth) ':'

/-- The first line of a directive and its option lines. -/
def directiveStart (fence : List Char) (name : String) (argument : Option String)
    (options : List (String × String)) : List Char :=
  let shown := match argument with
    | some a => if a.isEmpty then [] else ' ' :: a.toList
    | none => []
  fence ++ ['\x7b'] ++ name.toList ++ ['\x7d'] ++ shown ++ ['\n'] ++ optionLines options

/-- Whether a node is written between colon fences. -/
def writesDirective : Node → Bool
  | .leaf (.image i) => i.hasDirectiveAttributes
  | .leaf _ => false
  | .parent p _ => match p with
    | .admonition _ _ | .exercise _ _ _ | .solution _ _ | .proof _ _ _ | .tabSet | .tabItem _
    | .card _ | .grid _ | .details _ | .aside _ _ | .directive _ _ _ _ => true
    | .container kind _ _ _ => kind == some "figure" || kind == some "table"
    | _ => false

mutual

/-- How many directives stand one inside the other, from the node inward. -/
def directiveDepth : Node → Nat
  | .leaf l => if writesDirective (.leaf l) then 1 else 0
  | .parent p cs =>
    if writesDirective (.parent p cs) then directiveDepthAll cs + 1 else directiveDepthAll cs

def directiveDepthAll : List Node → Nat
  | [] => 0
  | n :: ns => max (directiveDepth n) (directiveDepthAll ns)

end

def imageOptions (i : Image) : List (String × String) :=
  some? "alt" i.alt ++ some? "class" i.cssClass ++ some? "width" i.width ++
    some? "height" i.height ++ some? "align" i.align

/-- An image with attributes that only a directive has; it has no body. -/
def imageDirectiveText (i : Image) : List Char :=
  directiveStart (colonFence 0) "image" (some i.url) (imageOptions i) ++ colonFence 0 ++ ['\n']

end MystNotebook.Markdown
