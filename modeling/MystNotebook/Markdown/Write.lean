import MystNotebook.Json.Printer
import MystNotebook.Markdown.Draft
import MystNotebook.Markdown.Link
import MystNotebook.Markdown.Fence
import MystNotebook.Markdown.Layout

/-! Documents as MyST Markdown. Plain kinds of node are written as CommonMark and the others as
directives and roles; a kind with no Markdown form is reported and written as its content. -/
namespace MystNotebook.Markdown
open Json

/-- Phrasing content, which shares a line with its neighbours. -/
def isInline : Node → Bool
  | .leaf l => match l with
    | .text _ | .inlineCode _ | .lineBreak | .image _ | .inlineMath _ => true
    | _ => false
  | .parent p _ => match p with
    | .emphasis | .strong | .link _ _ | .crossReference _ _ | .role _ _ => true
    | _ => false

namespace Draft

/-- Lines that stand for themselves. -/
def block (d : Draft) (s : List Char) : Draft := (d.newline.push s).atLineStart

def target (d : Draft) : Option String → Draft
  | some label => d.block (targetText label)
  | none => d

/-- A space keeps the span apart from a backtick before it. -/
def inlineCode (d : Draft) (value : List Char) : Draft :=
  let d := if d.endsWith '`' then d.push [' '] else d
  if value.contains '`' then d.inline ("`` ".toList ++ value ++ " ``".toList)
  else d.inline (['`'] ++ value ++ ['`'])

def wrapped (d : Draft) (marker : List Char) (inside : Draft → Draft) : Draft :=
  (inside (d.inline marker)).inline marker

def link (d : Draft) (url : List Char) (title : Option String) (inside : Draft → Draft) : Draft :=
  (inside (d.inline ['['])).inline (linkEnd url title)

def directive (d : Draft) (depth : Nat) (name : String) (argument : Option String)
    (options : List (String × String)) (body : Draft → Draft) : Draft :=
  let fence := colonFence depth
  (body (d.block (directiveStart fence name argument options))).block (fence ++ ['\n'])

/-- The body of a directive that nobody parsed. -/
def rawBody (d : Draft) (value : List Char) : Draft :=
  { d.newline.push value with lineStart := value.isEmpty || value.getLast? == some '\n' }

def leaf (d : Draft) : Leaf → Draft
  | .thematicBreak => d.block "---\n".toList
  | .code c => d.block (codeText c)
  | .text value => d.inline value.toList
  | .inlineCode value => d.inlineCode value.toList
  | .lineBreak => (d.push "  \n".toList).atLineStart
  | .image i => d.inline (imageText i)
  | .math m => d.block (mathText m)
  | .inlineMath value => d.inline (['$'] ++ value.toList ++ ['$'])
  | .html value => d.inline value.toList
  | .target label => d.target (some label)
  | .comment value => d.block (commentText value.toList)

/-- Gives a node in block position lines of its own; `write` writes the node. -/
def asBlock (d : Draft) (n : Node) (write : Draft → Draft) : Draft :=
  match n with
  | .leaf (.image i) =>
    if i.hasDirectiveAttributes then d.block (imageDirectiveText i)
    else (write d.newline).newline
  | n => if isInline n then (write d.newline).newline else write d

/-- Content that is a line of its own if it is all phrasing, and blocks otherwise. -/
def flow (d : Draft) (phrasing : Bool) (inlines blocks : Draft → Draft) : Draft :=
  if phrasing then (inlines d.newline).newline else blocks d

end Draft

def nowhere (_ : Node) : Bool := false

def isTitle : Parent → Bool
  | .admonitionTitle => true
  | _ => false

def isCaption : Parent → Bool
  | .caption => true
  | _ => false

def isSummary : Parent → Bool
  | .summary => true
  | _ => false

def isCardTitle : Parent → Bool
  | .cardTitle => true
  | _ => false

def isHeader : Parent → Bool
  | .header => true
  | _ => false

def isFooter : Parent → Bool
  | .footer => true
  | _ => false

/-- Whether a node is a parent of the given kind. -/
def ofKind (kind : Parent → Bool) : Node → Bool
  | .leaf _ => false
  | .parent p _ => kind p

def isImage : Node → Bool
  | .leaf (.image _) => true
  | _ => false

def isListItem : Node → Bool
  | .parent (.listItem _) _ => true
  | _ => false

def isTableRow : Node → Bool
  | .parent .tableRow _ => true
  | _ => false

/-- What a card does not show in its body. -/
def isCardPart (n : Node) : Bool :=
  ofKind isHeader n || ofKind isFooter n || ofKind isCardTitle n

def firstImage (ns : List Node) : Option Image :=
  ns.findSome? fun
    | .leaf (.image i) => some i
    | _ => none

def firstCode (ns : List Node) : Option Code :=
  ns.findSome? fun
    | .leaf (.code c) => some c
    | _ => none

/-- The most children that a row has. -/
def columnCount (rows : List Node) : Nat :=
  rows.foldl (fun n row => if isTableRow row then max n row.children.length else n) 0

def marker (ordered : Bool) (number : UInt32) : List Char :=
  if ordered then (toString number.toNat).toList ++ ['.', ' '] else ['-', ' ']

/-- The text of an option of a directive that nobody parsed. -/
def optionText : Value → String
  | .string s => s
  | .bool true => ""
  | v => String.ofList v.compact

def rawOptions (options : Option Fields) : List (String × String) :=
  match options with
  | some f => f.entries.map fun (key, value) => (key, optionText value)
  | none => []

mutual

def writeNode : Node → Draft → Draft
  | .leaf l, d => d.leaf l
  | .parent p cs, d =>
    let depth := directiveDepthAll cs
    match p with
    | .block _ _ target => writeBlocks nowhere false cs (d.target target.label)
    | .heading level target =>
      let d := (d.target target.label).newline
      let d := d.push (List.replicate (max 1 (min level.toNat 6)) '#' ++ [' '])
      ((writeInlines cs d).push ['\n']).atLineStart
    | .paragraph => ((writeInlines cs d.newline).push ['\n']).atLineStart
    | .blockquote =>
      let (body, d) := d.newline.capture (writeBlocks nowhere false cs)
      (d.push (quoteText body)).atLineStart
    | .list ordered start spread =>
      (writeItems ordered spread (start.getD 1) cs d.newline).atLineStart
    | .listItem _ => writeBlocks nowhere false cs d
    | .table align =>
      let d := d.newline
      if cs.any isTableRow then (writeRows (columnCount cs) align true cs d).atLineStart else d
    | .tableRow | .tableCell _ | .definitionTerm | .definitionDescription => d
    | .definitionList => (writeDefinitions false cs d.newline).atLineStart
    | .emphasis => d.wrapped ['*'] (writeInlines cs)
    | .strong => d.wrapped ['*', '*'] (writeInlines cs)
    | .link url title => d.link url.toList title (writeInlines cs)
    | .crossReference _ target =>
      match target.identifier <|> target.label with
      | none =>
        writeInlines cs
          (d.report "crossReference" "cross reference has no target; writing its text")
      | some destination =>
        let shown := (target.label.getD destination).toList
        d.link ('#' :: destination.toList) none
          (if cs.isEmpty then (·.inline shown) else writeInlines cs)
    | .admonition kind cssClass =>
      let (title, d) := writeTitle isTitle cs d
      d.directive depth (kind.getD "admonition") title (some? "class" cssClass)
        (writeBlocks (ofKind isTitle) false cs)
    | .admonitionTitle | .caption | .legend | .cardTitle | .header | .footer | .summary =>
      d.flow (cs.all isInline) (writeInlines cs) (writeBlocks nowhere false cs)
    | .container kind target _ cssClass =>
      let options := some? "label" target.label ++ some? "class" cssClass
      match kind with
      | some "figure" =>
        let image := firstImage cs
        d.directive depth "figure" (image.map (·.url))
          (options ++ some? "alt" (image.bind (·.alt)) ++ some? "width" (image.bind (·.width)))
          (writeBlocks isImage false cs)
      | some "table" =>
        let (title, d) := writeTitle isCaption cs d
        d.directive depth "table" title options (writeBlocks (ofKind isCaption) false cs)
      | some "code" =>
        let code := firstCode cs
        let (caption, d) := writeTitle isCaption cs d
        d.block (fencedText (codeBlockInfo (code.bind (·.lang)))
          (options ++ some? "caption" caption) ((code.map (·.value)).getD "").toList)
      | _ => writeBlocks nowhere false cs d
    | .exercise target _ cssClass =>
      let (title, d) := writeTitle isTitle cs d
      d.directive depth "exercise" title (some? "label" target.label ++ some? "class" cssClass)
        (writeBlocks (ofKind isTitle) false cs)
    | .solution target cssClass =>
      let (title, d) := writeTitle isTitle cs d
      d.directive depth "solution" title (some? "label" target.label ++ some? "class" cssClass)
        (writeBlocks (ofKind isTitle) false cs)
    | .proof kind target _ =>
      let (title, d) := writeTitle isTitle cs d
      d.directive depth ("prf:" ++ kind.getD "proof") title (some? "label" target.label)
        (writeBlocks (ofKind isTitle) false cs)
    | .tabSet => d.directive depth "tab-set" none [] (writeBlocks nowhere false cs)
    | .tabItem title =>
      d.directive depth "tab-item" (some title) [] (writeBlocks nowhere false cs)
    | .card url =>
      let (title, d) := writeTitle isCardTitle cs d
      d.directive depth "card" title (some? "link" url) fun d =>
        let d := writeParts isHeader cs d
        let d := if cs.any (ofKind isHeader) then d.newline.add "^^^\n" else d
        let d := writeBlocks isCardPart false cs d
        if cs.any (ofKind isFooter) then writeParts isFooter cs (d.newline.add "+++\n") else d
    | .grid columns =>
      d.directive depth "grid" (columns.map (numberList " ")) [] (writeBlocks nowhere false cs)
    | .details opened =>
      let (title, d) := writeTitle isSummary cs d
      d.directive depth "dropdown" title (if opened == some true then [("open", "")] else [])
        (writeBlocks (ofKind isSummary) false cs)
    | .aside kind cssClass =>
      let (title, d) := writeTitle isTitle cs d
      d.directive depth (kind.getD "aside") title (some? "class" cssClass)
        (writeBlocks (ofKind isTitle) false cs)
    | .inclusion _ => writeBlocks nowhere false cs d
    | .directive name args options value =>
      d.directive depth name args (rawOptions options) fun d =>
        match value, cs.isEmpty with
        | some value, true => d.rawBody value.toList
        | _, _ => writeBlocks nowhere false cs d
    | .role name value =>
      match value with
      | some value => (d.inline (['\x7b'] ++ name.toList ++ ['\x7d'])).inlineCode value.toList
      | none => writeInlines cs d
    | .other name fields =>
      let d := d.report name "no Markdown form for this node; writing its content"
      if cs.isEmpty then
        match fields.get? "value" with
        | some (.string value) => d.inline value.toList
        | _ => d
      else d.flow (cs.all isInline) (writeInlines cs) (writeBlocks nowhere false cs)

/-- Blocks with blank lines between them, less those to `skip`; `started` says that one has been
written. -/
def writeBlocks (skip : Node → Bool) (started : Bool) : List Node → Draft → Draft
  | [], d => d
  | n :: ns, d =>
    if skip n then writeBlocks skip started ns d
    else
      let d := if started then d.blankLine else d
      writeBlocks skip true ns (d.asBlock n (writeNode n))

def writeInlines : List Node → Draft → Draft
  | [], d => d
  | n :: ns, d => writeInlines ns (writeNode n d)

/-- Content for a single line, where paragraphs are opened up. -/
def writeUnwrapped : List Node → Draft → Draft
  | [], d => d
  | .parent .paragraph cs :: ns, d => writeUnwrapped ns (writeInlines cs d)
  | n :: ns, d => writeUnwrapped ns (writeNode n d)

/-- The first child of the kind of a title, as a line. -/
def writeTitle (kind : Parent → Bool) : List Node → Draft → Option String × Draft
  | [], d => (none, d)
  | .leaf _ :: ns, d => writeTitle kind ns d
  | .parent p cs :: ns, d =>
    if kind p then
      let (line, d) := d.captureLine (writeUnwrapped cs)
      (some (String.ofList line), d)
    else writeTitle kind ns d

/-- The children of one kind, one after the other. -/
def writeParts (kind : Parent → Bool) : List Node → Draft → Draft
  | [], d => d
  | n :: ns, d => writeParts kind ns (if ofKind kind n then writeNode n d else d)

def writeItemBody (spread : Bool) (started : Bool) : List Node → Draft → Draft
  | [], d => d
  | n :: ns, d =>
    let d := if started then (if spread then d.blankLine else d.newline) else d
    writeItemBody spread true ns (d.asBlock n (writeNode n))

/-- The items of a list, the first of them under `number`. Behind the largest number comes zero. -/
def writeItems (ordered spread : Bool) (number : UInt32) : List Node → Draft → Draft
  | [], d => d
  | .parent (.listItem itemSpread) cs :: ns, d =>
    let (body, d) := d.capture (writeItemBody (spread || itemSpread) false cs)
    let d := d.push (itemText (marker ordered number) body)
    let d := if spread && ns.any isListItem then d.push ['\n'] else d
    writeItems ordered spread (number + 1) ns d
  | _ :: ns, d => writeItems ordered spread number ns d

def writeRows (columns : Nat) (align : List (Option Align)) (first : Bool) :
    List Node → Draft → Draft
  | [], d => d
  | .parent .tableRow cs :: ns, d =>
    let d := writeCells cs (d.push ['|'])
    let d := d.push (missingCells (columns - cs.length) ++ ['\n'])
    let d := if first then d.push (separatorText columns align) else d
    writeRows columns align false ns d
  | _ :: ns, d => writeRows columns align first ns d

def writeCells : List Node → Draft → Draft
  | [], d => d
  | .parent (.tableCell _) cs :: ns, d =>
    let (content, d) := (d.push [' ']).capture (writeUnwrapped cs)
    writeCells ns (d.push (cellText content ++ [' ', '|']))
  | _ :: ns, d => writeCells ns d

def writeDefinitions (started : Bool) : List Node → Draft → Draft
  | [], d => d
  | .parent .definitionTerm cs :: ns, d =>
    let d := if started then d.blankLine else d
    let (term, d) := d.captureLine (writeUnwrapped cs)
    writeDefinitions true ns (d.push (term ++ ['\n']))
  | .parent .definitionDescription cs :: ns, d =>
    let (body, d) := d.capture (writeBlocks nowhere false cs)
    writeDefinitions true ns (d.push (descriptionText body))
  | _ :: ns, d => writeDefinitions true ns d

end

theorem writeInlines_append (xs ys : List Node) (d : Draft) :
    writeInlines (xs ++ ys) d = writeInlines ys (writeInlines xs d) := by
  induction xs generalizing d with
  | nil => simp [writeInlines]
  | cons x xs ih => simp [writeInlines, ih]

/-- Metadata is written behind the break; a break without any only separates. -/
def blockBreak (separators started : Bool) : Node → List Char
  | .parent (.block _ (some data) _) _ =>
    if data.isEmpty then (if started && separators then "+++\n\n".toList else [])
    else "+++ ".toList ++ (Value.ofFields data).compact ++ ['\n', '\n']
  | .parent (.block _ none _) _ => if started && separators then "+++\n\n".toList else []
  | _ => []

def writeTop (separators : Bool) (started : Bool) : List Node → Draft → Draft
  | [], d => d
  | n :: ns, d =>
    let d := if started then d.blankLine else d
    let d := d.push (blockBreak separators started n)
    writeTop separators true ns (d.asBlock n (writeNode n))

def draftOf (separators : Bool) (ns : List Node) : Draft :=
  (writeTop separators false ns {}).newline

/-- The text of a document; `separators` asks for a break between blocks at the top. -/
def write (separators : Bool) (ns : List Node) : String :=
  String.ofList (draftOf separators ns).page.reverse

/-- What could not be expressed, in the order in which it was met. -/
def diagnose (separators : Bool) (ns : List Node) : List Diagnostic :=
  (draftOf separators ns).diagnostics.reverse

end MystNotebook.Markdown
