import MystNotebook.Document.Node
import MystNotebook.Json.Decode

/-! Documents from JSON. A node whose type is known and whose fields have the right shape becomes
that kind of node; any other object with a type becomes a node of kind `other`, which keeps its
fields. -/
namespace MystNotebook
open Json

/-- Reads one field of a node, absent if it has the wrong shape. -/
abbrev FieldReader (α : Type) := Value → Option α

namespace FieldReader

def string : FieldReader String
  | .string s => some s
  | _ => none

def flag : FieldReader Bool
  | .bool b => some b
  | _ => none

def byte : FieldReader UInt8
  | .number (.int i) => if 0 ≤ i ∧ i < UInt8.size then some (UInt8.ofNat i.toNat) else none
  | _ => none

def word : FieldReader UInt32
  | .number (.int i) => if 0 ≤ i ∧ i < UInt32.size then some (UInt32.ofNat i.toNat) else none
  | _ => none

def listOf {α : Type} (read : FieldReader α) : FieldReader (List α)
  | .array vs => vs.mapM read
  | _ => none

def map : FieldReader Fields
  | .object fs => some (.ofList fs)
  | _ => none

def nullable {α : Type} (read : FieldReader α) : FieldReader (Option α)
  | .null => some none
  | v => (read v).map some

def alignName : String → Option Align
  | "left" => some .left
  | "center" => some .center
  | "right" => some .right
  | _ => none

/-- The name, or an object with the name as its only key and nothing behind it. -/
def align : FieldReader Align
  | .string s => alignName s
  | .object [(k, .null)] => alignName k
  | .object [(k, .object [])] => alignName k
  | _ => none

/-- A missing field has its default. -/
def field {α : Type} (read : FieldReader α) (default : α) (f : Fields) (key : String) : Option α :=
  match f.get? key with
  | none => some default
  | some v => read v

def optional {α : Type} (read : FieldReader α) (f : Fields) (key : String) : Option (Option α) :=
  field (nullable read) none f key

def optionalText (f : Fields) (key : String) : Option (Option String) := optional string f key

def targetOf (f : Fields) : Option Target := do
  some { identifier := ← optionalText f "identifier", label := ← optionalText f "label" }

end FieldReader

open FieldReader

/-- The types of node that are modelled, in the order in which a number may stand for the type. -/
def modelledTypes : List String :=
  ["block", "heading", "paragraph", "thematicBreak", "blockquote", "list", "listItem", "code",
   "table", "tableRow", "tableCell", "definitionList", "definitionTerm", "definitionDescription",
   "text", "emphasis", "strong", "inlineCode", "break", "link", "image", "crossReference", "math",
   "inlineMath", "html", "admonition", "admonitionTitle", "container", "caption", "legend",
   "exercise", "solution", "proof", "tabSet", "tabItem", "card", "cardTitle", "header", "footer",
   "grid", "details", "summary", "aside", "include", "mystDirective", "mystRole", "mystTarget",
   "comment"]

/-- The fields of a type in the order in which an array gives them, after the type. -/
def fieldOrder : String → List String
  | "block" => ["kind", "data", "identifier", "label", "children"]
  | "heading" => ["depth", "identifier", "label", "children"]
  | "thematicBreak" | "break" => []
  | "list" => ["ordered", "start", "spread", "children"]
  | "listItem" => ["spread", "children"]
  | "code" =>
    ["lang", "meta", "value", "class", "emphasizeLines", "showLineNumbers", "startingLineNumber",
     "filename", "identifier", "label"]
  | "table" => ["align", "children"]
  | "tableCell" => ["header", "children"]
  | "text" | "inlineCode" | "inlineMath" | "html" | "comment" => ["value"]
  | "link" => ["url", "title", "children"]
  | "image" => ["url", "title", "alt", "class", "width", "height", "align"]
  | "crossReference" => ["kind", "identifier", "label", "children"]
  | "math" => ["value", "identifier", "label", "enumerator"]
  | "admonition" | "aside" => ["kind", "class", "children"]
  | "container" => ["kind", "identifier", "label", "enumerator", "class", "children"]
  | "exercise" => ["identifier", "label", "enumerator", "class", "children"]
  | "solution" => ["identifier", "label", "class", "children"]
  | "proof" => ["kind", "identifier", "label", "enumerator", "children"]
  | "tabItem" => ["title", "children"]
  | "card" => ["url", "children"]
  | "grid" => ["columns", "children"]
  | "details" => ["open", "children"]
  | "include" => ["file", "children"]
  | "mystDirective" => ["name", "args", "options", "value", "children"]
  | "mystRole" => ["name", "value", "children"]
  | "mystTarget" => ["label"]
  | _ => ["children"]

def Code.decode (f : Fields) : Option Code := do
  some {
    lang := ← optionalText f "lang"
    metadata := ← optionalText f "meta"
    value := ← field string "" f "value"
    cssClass := ← optionalText f "class"
    emphasizeLines := ← optional (listOf word) f "emphasizeLines"
    showLineNumbers := ← optional flag f "showLineNumbers"
    startingLineNumber := ← optional word f "startingLineNumber"
    filename := ← optionalText f "filename"
    target := ← targetOf f }

def Image.decode (f : Fields) : Option Image := do
  some {
    url := ← field string "" f "url"
    title := ← optionalText f "title"
    alt := ← optionalText f "alt"
    cssClass := ← optionalText f "class"
    width := ← optionalText f "width"
    height := ← optionalText f "height"
    align := ← optionalText f "align" }

def Math.decode (f : Fields) : Option Math := do
  some {
    value := ← field string "" f "value"
    target := ← targetOf f
    enumerator := ← optionalText f "enumerator" }

def Leaf.decode (typeName : String) (f : Fields) : Option Leaf :=
  match typeName with
  | "thematicBreak" => some .thematicBreak
  | "code" => (Code.decode f).map .code
  | "text" => (field string "" f "value").map .text
  | "inlineCode" => (field string "" f "value").map .inlineCode
  | "break" => some .lineBreak
  | "image" => (Image.decode f).map .image
  | "math" => (Math.decode f).map .math
  | "inlineMath" => (field string "" f "value").map .inlineMath
  | "html" => (field string "" f "value").map .html
  | "mystTarget" => (field string "" f "label").map .target
  | "comment" => (field string "" f "value").map .comment
  | _ => none

def Parent.decode (typeName : String) (f : Fields) : Option Parent :=
  match typeName with
  | "block" => do some (.block (← optionalText f "kind") (← optional map f "data") (← targetOf f))
  | "heading" => do some (.heading (← field byte 1 f "depth") (← targetOf f))
  | "paragraph" => some .paragraph
  | "blockquote" => some .blockquote
  | "list" => do
    some (.list (← field flag false f "ordered") (← optional word f "start")
      (← field flag false f "spread"))
  | "listItem" => do some (.listItem (← field flag false f "spread"))
  | "table" => do some (.table (← field (listOf (nullable align)) [] f "align"))
  | "tableRow" => some .tableRow
  | "tableCell" => do some (.tableCell (← optional flag f "header"))
  | "definitionList" => some .definitionList
  | "definitionTerm" => some .definitionTerm
  | "definitionDescription" => some .definitionDescription
  | "emphasis" => some .emphasis
  | "strong" => some .strong
  | "link" => do some (.link (← field string "" f "url") (← optionalText f "title"))
  | "crossReference" => do some (.crossReference (← optionalText f "kind") (← targetOf f))
  | "admonition" => do some (.admonition (← optionalText f "kind") (← optionalText f "class"))
  | "admonitionTitle" => some .admonitionTitle
  | "container" => do
    some (.container (← optionalText f "kind") (← targetOf f) (← optionalText f "enumerator")
      (← optionalText f "class"))
  | "caption" => some .caption
  | "legend" => some .legend
  | "exercise" => do
    some (.exercise (← targetOf f) (← optionalText f "enumerator") (← optionalText f "class"))
  | "solution" => do some (.solution (← targetOf f) (← optionalText f "class"))
  | "proof" => do
    some (.proof (← optionalText f "kind") (← targetOf f) (← optionalText f "enumerator"))
  | "tabSet" => some .tabSet
  | "tabItem" => do some (.tabItem (← field string "" f "title"))
  | "card" => do some (.card (← optionalText f "url"))
  | "cardTitle" => some .cardTitle
  | "header" => some .header
  | "footer" => some .footer
  | "grid" => do some (.grid (← optional (listOf word) f "columns"))
  | "details" => do some (.details (← optional flag f "open"))
  | "summary" => some .summary
  | "aside" => do some (.aside (← optionalText f "kind") (← optionalText f "class"))
  | "include" => do some (.inclusion (← optionalText f "file"))
  | "mystDirective" => do
    some (.directive (← field string "" f "name") (← optionalText f "args")
      (← optional map f "options") (← optionalText f "value"))
  | "mystRole" => do some (.role (← field string "" f "name") (← optionalText f "value"))
  | _ => none

namespace Node

/-- A node of a modelled type. -/
def decodeModelled (typeName : String) (f : Fields) (children : Option (List Node)) :
    Option Node :=
  match Leaf.decode typeName f with
  | some l => some (.leaf l)
  | none => do some (.parent (← Parent.decode typeName f) (← children))

/-- A node that keeps its fields as they are. -/
def decodeOther (typeName : String) (f : Fields) (children : Option (List Node)) : Option Node := do
  some (.parent (.other typeName ((f.erase "type").erase "children")) (← children))

/-- The modelled type that a type field names; a number counts the modelled types from zero. -/
def modelledType : Value → Option String
  | .string s => some s
  | .number (.int i) => if 0 ≤ i then modelledTypes[i.toNat]? else none
  | _ => none

/-- A node from the fields of an object and from what its children have been read as. -/
def ofFields (f : Fields) (children : Option (List Node)) : Option Node := do
  let tag ← f.get? "type"
  match (modelledType tag).bind fun name => decodeModelled name f children with
  | some n => some n
  | none => match tag with
    | .string name => decodeOther name f children
    | _ => none

/-- A node from its type and its fields in order. -/
def ofItems (name : String) (items : List Value) (children : Option (List Node)) : Option Node := do
  guard (name ∈ modelledTypes ∧ items.length ≤ (fieldOrder name).length)
  decodeModelled name (.ofList ((fieldOrder name).zip items)) children

mutual

def decode : Value → Option Node
  | .object fs => ofFields (.ofList fs) ((childrenField fs).getD (some []))
  | .array (tag :: items) => do
    let name ← modelledType tag
    ofItems name items (childrenAt ((fieldOrder name).idxOf "children") items)
  | _ => none

def decodeAll : List Value → Option (List Node)
  | [] => some []
  | v :: vs => do
    let n ← decode v
    let ns ← decodeAll vs
    some (n :: ns)

/-- What a value has been read as for the children. -/
def childrenOf : Value → Option (List Node)
  | .array vs => decodeAll vs
  | _ => none

/-- What the field `children` has been read as, if there is one. -/
def childrenField : List (String × Value) → Option (Option (List Node))
  | [] => none
  | (k, v) :: rest =>
    (childrenField rest).or (if k = "children" then some (childrenOf v) else none)

/-- What the item at a place has been read as, where no item means no children. -/
def childrenAt : Nat → List Value → Option (List Node)
  | _, [] => some []
  | 0, v :: _ => childrenOf v
  | place + 1, _ :: rest => childrenAt place rest

end

/-- The children of a root, which is a record with that one field. -/
def decodeDocument (v : Value) : Except DecodeError (List Node) :=
  v.record "Root" ["children"] [] fun cs key value =>
    if key = "children" then do
      match decodeAll (← value.items) with
      | some ns => .ok ns
      | none => .error .unreadableNode
    else .ok cs

end Node
end MystNotebook
