import MystNotebook.Json.Fields

/-! Documents as trees. A node is a leaf with content of its own or a parent, whose attributes stand
apart from its children, so that a function on trees has one case for all parents. -/
namespace MystNotebook
open Json

inductive Align where
  | left | center | right
  deriving DecidableEq, Repr

/-- What makes a node the target of references. -/
structure Target where
  identifier : Option String := none
  label : Option String := none
  deriving DecidableEq

structure Code where
  lang : Option String := none
  metadata : Option String := none
  value : String := ""
  cssClass : Option String := none
  emphasizeLines : Option (List UInt32) := none
  showLineNumbers : Option Bool := none
  startingLineNumber : Option UInt32 := none
  filename : Option String := none
  target : Target := {}
  deriving DecidableEq

structure Image where
  url : String := ""
  title : Option String := none
  alt : Option String := none
  cssClass : Option String := none
  width : Option String := none
  height : Option String := none
  align : Option String := none
  deriving DecidableEq

structure Math where
  value : String := ""
  target : Target := {}
  enumerator : Option String := none
  deriving DecidableEq

inductive Leaf where
  | thematicBreak
  | code (code : Code)
  | text (value : String)
  | inlineCode (value : String)
  | lineBreak
  | image (image : Image)
  | math (math : Math)
  | inlineMath (value : String)
  | html (value : String)
  | target (label : String)
  | comment (value : String)
  deriving DecidableEq

/-- A parent without its children. The kinds from `admonition` to `inclusion` come from directives,
`directive` and `role` are those that nobody resolved, and `other` is any kind not listed. -/
inductive Parent where
  | block (kind : Option String) (data : Option Fields) (target : Target)
  | heading (depth : UInt8) (target : Target)
  | paragraph
  | blockquote
  | list (ordered : Bool) (start : Option UInt32) (spread : Bool)
  | listItem (spread : Bool)
  | table (align : List (Option Align))
  | tableRow
  | tableCell (header : Option Bool)
  | definitionList
  | definitionTerm
  | definitionDescription
  | emphasis
  | strong
  | link (url : String) (title : Option String)
  | crossReference (kind : Option String) (target : Target)
  | admonition (kind cssClass : Option String)
  | admonitionTitle
  | container (kind : Option String) (target : Target) (enumerator cssClass : Option String)
  | caption
  | legend
  | exercise (target : Target) (enumerator cssClass : Option String)
  | solution (target : Target) (cssClass : Option String)
  | proof (kind : Option String) (target : Target) (enumerator : Option String)
  | tabSet
  | tabItem (title : String)
  | card (url : Option String)
  | cardTitle
  | header
  | footer
  | grid (columns : Option (List UInt32))
  | details (opened : Option Bool)
  | summary
  | aside (kind cssClass : Option String)
  | inclusion (file : Option String)
  | directive (name : String) (args : Option String) (options : Option Fields)
      (value : Option String)
  | role (name : String) (value : Option String)
  | other (typeName : String) (fields : Fields)
  deriving DecidableEq

inductive Node where
  | leaf (content : Leaf)
  | parent (attributes : Parent) (children : List Node)

namespace Node

mutual

def decEq : (a b : Node) → Decidable (a = b)
  | .leaf x, .leaf y => decidable_of_iff (x = y) (by simp)
  | .leaf _, .parent _ _ | .parent _ _, .leaf _ => isFalse (by simp)
  | .parent p cs, .parent q ds =>
    if hp : p = q then
      match decEqAll cs ds with
      | isTrue h => isTrue (by rw [hp, h])
      | isFalse h => isFalse (by simp [h])
    else isFalse (by simp [hp])

def decEqAll : (cs ds : List Node) → Decidable (cs = ds)
  | [], [] => isTrue rfl
  | [], _ :: _ | _ :: _, [] => isFalse (by simp)
  | c :: cs, d :: ds => match decEq c d, decEqAll cs ds with
    | isTrue h, isTrue hs => isTrue (by rw [h, hs])
    | isFalse h, _ => isFalse (by simp [h])
    | _, isFalse hs => isFalse (by simp [hs])

end

instance : DecidableEq Node := decEq

def text (value : String) : Node := .leaf (.text value)

def html (value : String) : Node := .leaf (.html value)

def paragraph (children : List Node) : Node := .parent .paragraph children

def strong (children : List Node) : Node := .parent .strong children

def emphasis (children : List Node) : Node := .parent .emphasis children

def blockquote (children : List Node) : Node := .parent .blockquote children

/-- A leaf has none. -/
def children : Node → List Node
  | .leaf _ => []
  | .parent _ cs => cs

/-- The kind of the blocks that hold the code of a notebook cell. -/
def codeCellKind : String := "notebook-code"

def isCodeCell : Node → Bool
  | .parent (.block kind _ _) _ => kind == some codeCellKind
  | _ => false

end Node

def Image.hasDirectiveAttributes (i : Image) : Bool :=
  i.cssClass.isSome || i.width.isSome || i.height.isSome || i.align.isSome

def Leaf.typeName : Leaf → String
  | .thematicBreak => "thematicBreak"
  | .code _ => "code"
  | .text _ => "text"
  | .inlineCode _ => "inlineCode"
  | .lineBreak => "break"
  | .image _ => "image"
  | .math _ => "math"
  | .inlineMath _ => "inlineMath"
  | .html _ => "html"
  | .target _ => "mystTarget"
  | .comment _ => "comment"

def Parent.typeName : Parent → String
  | .block _ _ _ => "block"
  | .heading _ _ => "heading"
  | .paragraph => "paragraph"
  | .blockquote => "blockquote"
  | .list _ _ _ => "list"
  | .listItem _ => "listItem"
  | .table _ => "table"
  | .tableRow => "tableRow"
  | .tableCell _ => "tableCell"
  | .definitionList => "definitionList"
  | .definitionTerm => "definitionTerm"
  | .definitionDescription => "definitionDescription"
  | .emphasis => "emphasis"
  | .strong => "strong"
  | .link _ _ => "link"
  | .crossReference _ _ => "crossReference"
  | .admonition _ _ => "admonition"
  | .admonitionTitle => "admonitionTitle"
  | .container _ _ _ _ => "container"
  | .caption => "caption"
  | .legend => "legend"
  | .exercise _ _ _ => "exercise"
  | .solution _ _ => "solution"
  | .proof _ _ _ => "proof"
  | .tabSet => "tabSet"
  | .tabItem _ => "tabItem"
  | .card _ => "card"
  | .cardTitle => "cardTitle"
  | .header => "header"
  | .footer => "footer"
  | .grid _ => "grid"
  | .details _ => "details"
  | .summary => "summary"
  | .aside _ _ => "aside"
  | .inclusion _ => "include"
  | .directive _ _ _ _ => "mystDirective"
  | .role _ _ => "mystRole"
  | .other name _ => name

def Node.typeName : Node → String
  | .leaf l => l.typeName
  | .parent p _ => p.typeName

def Parent.isOther : Parent → Bool
  | .other _ _ => true
  | _ => false

end MystNotebook
