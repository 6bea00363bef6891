import MystNotebook.Document.Node

/-! Documents as JSON. Optional attributes that are missing are left out, all others are written,
and a node of kind `other` without children has no such field. -/
namespace MystNotebook
open Json

namespace FieldWriter

def optional {α : Type} (key : String) (write : α → Value) (x : Option α) : List (String × Value) :=
  (x.map fun v => (key, write v)).toList

def optionalText (key : String) (x : Option String) : List (String × Value) :=
  optional key .string x

def word (n : UInt32) : Value := .number (.int n.toNat)

def words (ns : List UInt32) : Value := .array (ns.map word)

def align : Option Align → Value
  | none => .null
  | some .left => .string "left"
  | some .center => .string "center"
  | some .right => .string "right"

def target (t : Target) : List (String × Value) :=
  optionalText "identifier" t.identifier ++ optionalText "label" t.label

end FieldWriter

open FieldWriter

def Code.fields (c : Code) : List (String × Value) :=
  optionalText "lang" c.lang ++ optionalText "meta" c.metadata ++ [("value", .string c.value)] ++
    optionalText "class" c.cssClass ++ optional "emphasizeLines" words c.emphasizeLines ++
    optional "showLineNumbers" .bool c.showLineNumbers ++
    optional "startingLineNumber" word c.startingLineNumber ++ optionalText "filename" c.filename ++
    FieldWriter.target c.target

def Image.fields (i : Image) : List (String × Value) :=
  [("url", .string i.url)] ++ optionalText "title" i.title ++ optionalText "alt" i.alt ++
    optionalText "class" i.cssClass ++ optionalText "width" i.width ++
    optionalText "height" i.height ++ optionalText "align" i.align

def Math.fields (m : Math) : List (String × Value) :=
  [("value", .string m.value)] ++ FieldWriter.target m.target ++
    optionalText "enumerator" m.enumerator

def Leaf.fields : Leaf → List (String × Value)
  | .thematicBreak | .lineBreak => []
  | .code c => c.fields
  | .image i => i.fields
  | .math m => m.fields
  | .text value | .inlineCode value | .inlineMath value | .html value | .comment value =>
    [("value", .string value)]
  | .target label => [("label", .string label)]

def Parent.fields : Parent → List (String × Value)
  | .block kind data target =>
    optionalText "kind" kind ++ optional "data" .ofFields data ++ FieldWriter.target target
  | .heading depth target =>
    [("depth", .number (.int depth.toNat))] ++ FieldWriter.target target
  | .list ordered start spread =>
    [("ordered", .bool ordered)] ++ optional "start" word start ++ [("spread", .bool spread)]
  | .listItem spread => [("spread", .bool spread)]
  | .table align => [("align", .array (align.map FieldWriter.align))]
  | .tableCell isHeader => optional "header" .bool isHeader
  | .link url title => [("url", .string url)] ++ optionalText "title" title
  | .crossReference kind target => optionalText "kind" kind ++ FieldWriter.target target
  | .admonition kind cssClass | .aside kind cssClass =>
    optionalText "kind" kind ++ optionalText "class" cssClass
  | .container kind target enumerator cssClass =>
    optionalText "kind" kind ++ FieldWriter.target target ++ optionalText "enumerator" enumerator ++
      optionalText "class" cssClass
  | .exercise target enumerator cssClass =>
    FieldWriter.target target ++ optionalText "enumerator" enumerator ++
      optionalText "class" cssClass
  | .solution target cssClass => FieldWriter.target target ++ optionalText "class" cssClass
  | .proof kind target enumerator =>
    optionalText "kind" kind ++ FieldWriter.target target ++ optionalText "enumerator" enumerator
  | .tabItem title => [("title", .string title)]
  | .card url => optionalText "url" url
  | .grid columns => optional "columns" words columns
  | .details opened => optional "open" .bool opened
  | .inclusion file => optionalText "file" file
  | .directive name args options value =>
    [("name", .string name)] ++ optionalText "args" args ++ optional "options" .ofFields options ++
      optionalText "value" value
  | .role name value => [("name", .string name)] ++ optionalText "value" value
  | .other _ fields => fields.entries
  | _ => []

namespace Node

mutual

def encode : Node → Value
  | .leaf l => .ofFields (.ofList (l.fields ++ [("type", .string l.typeName)]))
  | .parent p cs =>
    let children := if p.isOther && cs.isEmpty then [] else [("children", .array (encodeAll cs))]
    .ofFields (.ofList (p.fields ++ children ++ [("type", .string p.typeName)]))

def encodeAll : List Node → List Value
  | [] => []
  | n :: ns => encode n :: encodeAll ns

end

/-- A root with the nodes as its children. -/
def encodeDocument (ns : List Node) : Value := .object [("children", .array (encodeAll ns))]

end Node
end MystNotebook
