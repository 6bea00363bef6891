import MystNotebook.Document.Walk
import MystNotebook.Text.Uppercase

/-! Documents in plain CommonMark. Every node gives way to zero, one or many nodes, built from what
its children have given way to, and no result is the target of a reference any more. -/
namespace MystNotebook.CommonMark

def boldParagraph (inline : List Node) : Node := .paragraph [.strong inline]

/-- The name and, if there is one, the number. -/
def numberedLabel (name : String) : Option String → List Node
  | some n => if n.isEmpty then [.text name] else [.text (name ++ " " ++ n)]
  | none => [.text name]

/-- What stands before a caption, nothing without a number. -/
def numberedPrefix (name : String) : Option String → List Node
  | some n => if n.isEmpty then [] else [.text (name ++ " " ++ n ++ ": ")]
  | none => []

/-- A paragraph gives way to its children. -/
def unwrapped : Node → List Node
  | .parent .paragraph cs => cs
  | n => [n]

/-- The content so far and then that of the node, with a space between them. -/
def appendInline (out : List Node) (n : Node) : List Node :=
  let inline := unwrapped n
  if out.isEmpty || inline.isEmpty then out ++ inline else out ++ [.text " "] ++ inline

/-- Content for an inline parent. -/
def inlineContent (ns : List Node) : List Node := ns.foldl appendInline []

/-- A title that stands first among the children, and the other children. -/
def splitTitle : List Node → Option (List Node) × List Node
  | .parent .admonitionTitle cs :: rest => (some (inlineContent cs), rest)
  | ns => (none, ns)

def nonEmpty (ns : List Node) : Option (List Node) := if ns.isEmpty then none else some ns

/-- The children of the last node that `children?` accepts. -/
def lastOf (children? : Node → Option (List Node)) (ns : List Node) : Option (List Node) :=
  ns.reverse.findSome? children?

/-- The children of a node of the given kind. -/
def partOf (p : Parent) : Node → Option (List Node)
  | .leaf _ => none
  | .parent q cs => if q = p then some cs else none

theorem partOf_eq_some {p : Parent} {n : Node} {cs : List Node} :
    partOf p n = some cs ↔ n = .parent p cs := by
  cases n with
  | leaf l => simp [partOf]
  | parent q ds => by_cases h : q = p <;> simp [partOf, h]

def caption? : Node → Option (List Node) := partOf .caption

def legend? : Node → Option (List Node) := partOf .legend

def cardTitle? : Node → Option (List Node) := partOf .cardTitle

def summary? : Node → Option (List Node) := partOf .summary

def isCardMargin : Node → Bool
  | .parent .header _ | .parent .footer _ => true
  | _ => false

/-- A header line of bold text in front of the body. -/
def headed (name : String) (enumerator : Option String) (cs : List Node) : List Node :=
  let (title, body) := splitTitle cs
  let shown := match title.bind nonEmpty with
    | some title => [.text " ("] ++ title ++ [.text ")"]
    | none => []
  boldParagraph (numberedLabel name enumerator ++ shown) :: body

def admonition (kind : Option String) (cs : List Node) : Node :=
  let (title, body) := splitTitle cs
  let title := title.getD [.text (Text.capitalize (kind.getD "note"))]
  .blockquote (boldParagraph title :: body)

def aside (cs : List Node) : Node :=
  let (title, body) := splitTitle cs
  .blockquote (((title.bind nonEmpty).map boldParagraph).toList ++ body)

/-- An image without a description takes the text of the caption. -/
def described (caption : String) : Node → Node
  | .leaf (.image i) =>
    if (i.alt.getD "").isEmpty && !caption.isEmpty then
      .leaf (.image { i with alt := some caption })
    else .leaf (.image i)
  | n => n

def container (kind enumerator : Option String) (cs : List Node) : List Node :=
  let caption := lastOf caption? cs
  let legend := (cs.filterMap legend?).flatten
  let rest := cs.filter fun n => (caption? n).isNone && (legend? n).isNone
  match kind with
  | some "figure" =>
    let shown := caption.map fun c =>
      Node.paragraph [.emphasis (numberedPrefix "Figure" enumerator ++ inlineContent c)]
    rest.map (described (Node.plainText (caption.getD []))) ++ shown.toList ++ legend
  | some "table" =>
    let shown := caption.map fun c =>
      boldParagraph (numberedPrefix "Table" enumerator ++ inlineContent c)
    shown.toList ++ rest ++ legend
  | some "code" => rest
  | _ =>
    let shown := caption.map fun c => Node.paragraph [.emphasis (inlineContent c)]
    rest ++ shown.toList ++ legend

/-- The kind of a theorem-like directive, without the domain that may stand before it. -/
def withoutDomain (kind : String) : String :=
  match kind.toList with
  | 'p' :: 'r' :: 'f' :: ':' :: rest => String.ofList rest
  | _ => kind

def proofName (kind : Option String) : String :=
  let name := withoutDomain (kind.getD "")
  Text.capitalize (if name.isEmpty then "proof" else name)

def card (url : Option String) (cs : List Node) : List Node :=
  let title := (lastOf cardTitle? cs).bind fun t => nonEmpty (inlineContent t)
  let body := cs.filter fun n => (cardTitle? n).isNone && !isCardMargin n
  let shown := title.map fun t => boldParagraph (match url with
    | some url => [.parent (.link url none) t]
    | none => t)
  shown.toList ++ body

def details (cs : List Node) : Node :=
  let summary := (lastOf summary? cs).bind fun s => nonEmpty (inlineContent s)
  let body := cs.filter fun n => (summary? n).isNone
  .blockquote (boldParagraph (summary.getD [.text "Details"]) :: body)

/-- A directive that nobody parsed keeps its content; without any, its raw body becomes code. -/
def directive (name : String) (value : Option String) (cs : List Node) : List Node :=
  if !cs.isEmpty then cs
  else match value with
    | some value =>
      [.leaf (.code { lang := if name.isEmpty then none else some name, value := value })]
    | none => []

def role (value : Option String) (cs : List Node) : List Node :=
  if !cs.isEmpty then cs else (value.map fun v => Node.leaf (.inlineCode v)).toList

def mathText (m : Math) : String :=
  "$$\n" ++ m.value ++ "\n$$" ++ match m.target.label with
    | some label => "\n<!-- (" ++ label ++ ") -->"
    | none => ""

def degradeLeaf : Leaf → List Node
  | .math m => [.html (mathText m)]
  | .inlineMath value => [.html ("$" ++ value ++ "$")]
  | .code c => [.leaf (.code { lang := c.lang, metadata := c.metadata, value := c.value })]
  | .image i => [.leaf (.image { url := i.url, title := i.title, alt := i.alt })]
  | .target _ | .comment _ => []
  | l => [.leaf l]

/-- What a parent gives way to, when its children have given way to `cs`. -/
def degradeParent (dropSolutions : Bool) (p : Parent) (cs : List Node) : List Node :=
  match p with
  | .admonition kind _ => [admonition kind cs]
  | .container kind _ enumerator _ => container kind enumerator cs
  | .exercise _ enumerator _ => headed "Exercise" enumerator cs
  | .solution _ _ => if dropSolutions then [] else headed "Solution" none cs
  | .proof kind _ enumerator => headed (proofName kind) enumerator cs
  | .tabSet | .grid _ | .inclusion _ => cs
  | .tabItem title => (if title.isEmpty then [] else [boldParagraph [.text title]]) ++ cs
  | .card url => card url cs
  | .details _ => [details cs]
  | .aside _ _ => [aside cs]
  | .directive name _ _ value => directive name value cs
  | .role _ value => role value cs
  | p => [.parent p cs]

mutual

def degradeNode (dropSolutions : Bool) : Node → List Node
  | .leaf l => degradeLeaf l
  | .parent p cs => degradeParent dropSolutions p (degrade dropSolutions cs)

/-- The nodes in plain CommonMark, with or without solutions. -/
def degrade (dropSolutions : Bool) : List Node → List Node
  | [] => []
  | n :: ns => (degradeNode dropSolutions n).map Node.withoutTarget ++ degrade dropSolutions ns

end

theorem degrade_eq_flatMap (dropSolutions : Bool) (ns : List Node) :
    degrade dropSolutions ns =
      ns.flatMap fun n => (degradeNode dropSolutions n).map Node.withoutTarget := by
  induction ns with
  | nil => simp [degrade]
  | cons n ns ih => simp [degrade, ih]

end MystNotebook.CommonMark
