import MystNotebook.Proofs.BareDocuments
import MystNotebook.Proofs.NormalForm
import MystNotebook.Proofs.UnitCells

/-! Notebooks in CommonMark from documents without reference metadata and presentation attributes.
In plain nodes nothing of it is left but fields of unknown nodes, and of these only the value is
written; so all of a notebook comes from what stays. -/
namespace MystNotebook

theorem Leaf.bare_eq_self {l : Leaf} (h : l.isPlain = true) : l.bare = l := by
  cases l with
  | code c =>
    obtain ⟨lang, metadata, value, cssClass, emphasizeLines, showLineNumbers, startingLineNumber,
      filename, target⟩ := c
    simp only [isPlain, Code.isPlain, Bool.and_eq_true, Option.isNone_iff_eq_none,
      beq_iff_eq] at h
    obtain ⟨⟨⟨⟨⟨rfl, rfl⟩, rfl⟩, rfl⟩, rfl⟩, rfl⟩ := h
    rfl
  | image i =>
    obtain ⟨url, title, alt, cssClass, width, height, align⟩ := i
    simp only [isPlain, Image.isPlain, Bool.and_eq_true, Option.isNone_iff_eq_none] at h
    obtain ⟨⟨⟨rfl, rfl⟩, rfl⟩, rfl⟩ := h
    rfl
  | target | comment => cases h
  | _ => rfl

/-- Only the fields of unknown nodes make a difference. -/
theorem Parent.bare_eq_self_or {p : Parent} (h : p.isPlain = true) :
    p.bare = p ∨ ∃ name fields, p = .other name fields := by
  cases p with
  | block | heading =>
    simp only [isPlain, beq_iff_eq] at h
    exact .inl (by rw [bare, h])
  | other name fields => exact .inr ⟨name, fields, rfl⟩
  | admonition | container | exercise | solution | proof | grid | details | aside | inclusion
  | directive => cases h
  | _ => exact .inl rfl

namespace Markdown
open Node

theorem isInline_bare (n : Node) : isInline n.bare = isInline n := by
  apply apply_bare
  · intro l
    cases l <;> rfl
  · intro p cs
    cases p <;> rfl

theorem isTableRow_bare (n : Node) : isTableRow n.bare = isTableRow n := by
  apply apply_bare
  · intro l
    rfl
  · intro p cs
    cases p <;> rfl

theorem isListItem_bare (n : Node) : isListItem n.bare = isListItem n := by
  apply apply_bare
  · intro l
    rfl
  · intro p cs
    cases p <;> rfl

theorem length_children_bare (n : Node) : n.bare.children.length = n.children.length := by
  apply apply_bare (f := fun n => n.children.length)
  · intro l
    rfl
  · intro p cs
    exact List.length_map _

theorem columnCount_map_bare (rows : List Node) :
    columnCount (rows.map bare) = columnCount rows := by
  simp only [columnCount, List.foldl_map, isTableRow_bare, length_children_bare]

/-- The nodes are written as they are without what is taken off, wherever they stand. -/
structure WritesBare (ns : List Node) : Prop where
  blocks : ∀ started, writeBlocks nowhere started (ns.map bare) = writeBlocks nowhere started ns
  inlines : writeInlines (ns.map bare) = writeInlines ns
  unwrapped : writeUnwrapped (ns.map bare) = writeUnwrapped ns
  itemBody : ∀ spread started,
    writeItemBody spread started (ns.map bare) = writeItemBody spread started ns
  items : ∀ ordered spread number,
    writeItems ordered spread number (ns.map bare) = writeItems ordered spread number ns
  rows : ∀ columns align first,
    writeRows columns align first (ns.map bare) = writeRows columns align first ns
  cells : writeCells (ns.map bare) = writeCells ns
  definitions : ∀ started, writeDefinitions started (ns.map bare) = writeDefinitions started ns

variable {p : Parent} {cs : List Node}

theorem writeNode_other_bare (hw : WritesBare cs) (name : String) (fields : Json.Fields) :
    writeNode (.parent (.other name (fields.only "value")) (cs.map bare)) =
      writeNode (.parent (.other name fields) cs) := by
  funext d
  simp only [writeNode, List.isEmpty_map, Json.Fields.get?_only, all_map_bare isInline_bare,
    hw.inlines, hw.blocks]

theorem writeNode_parent_bare (hp : p.isPlain = true) (hw : WritesBare cs) :
    writeNode (.parent p (cs.map bare)) = writeNode (.parent p cs) := by
  funext d
  cases p with
  | block | heading | paragraph | blockquote | list | listItem | table | tableRow | tableCell
  | definitionList | definitionTerm | definitionDescription | emphasis | strong | link
  | crossReference | admonitionTitle | caption | legend | cardTitle | header | footer | summary
  | other =>
    simp only [writeNode, hw.inlines, hw.blocks, hw.items, hw.rows, hw.definitions,
      columnCount_map_bare, any_map_bare isTableRow_bare, all_map_bare isInline_bare,
      List.isEmpty_map]
  | _ => cases hp

theorem writeNode_bare_of_children {n : Node} (hn : n.isPlain = true)
    (hw : WritesBare n.children) : writeNode n.bare = writeNode n := by
  cases n with
  | leaf l => rw [bare_leaf, Leaf.bare_eq_self hn]
  | parent p cs =>
    rw [bare_parent]
    rcases Parent.bare_eq_self_or hn with hself | ⟨name, fields, rfl⟩
    · rw [hself]
      exact writeNode_parent_bare hn hw
    · exact writeNode_other_bare hw name fields

theorem asBlock_bare {n : Node} (hn : n.isPlain = true) (d : Draft) (write : Draft → Draft) :
    d.asBlock n.bare write = d.asBlock n write := by
  cases n with
  | leaf l => rw [bare_leaf, Leaf.bare_eq_self hn]
  | parent p cs =>
    have hinline := isInline_bare (.parent p cs)
    rw [bare_parent] at hinline ⊢
    show (if isInline _ then _ else _) = if isInline _ then _ else _
    rw [hinline]

theorem writesBare_nil : WritesBare [] := by
  constructor <;> simp

/-! One more node in a list. Items, rows, cells and the parts of definitions are such by their
kinds, which stay. -/

section
variable {n : Node} {ns : List Node}

theorem writeBlocks_cons_bare (hplain : n.isPlain = true) (hn : writeNode n.bare = writeNode n)
    (hns : WritesBare ns) (started : Bool) :
    writeBlocks nowhere started (n.bare :: ns.map bare) =
      writeBlocks nowhere started (n :: ns) := by
  funext d
  simp only [writeBlocks, nowhere, Bool.false_eq_true, if_false, hns.blocks, hn,
    asBlock_bare hplain]

theorem writeUnwrapped_cons_bare (hn : writeNode n.bare = writeNode n)
    (hchildren : WritesBare n.children) (hns : WritesBare ns) :
    writeUnwrapped (n.bare :: ns.map bare) = writeUnwrapped (n :: ns) := by
  funext d
  cases n with
  | leaf l =>
    rw [bare_leaf] at hn ⊢
    exact (congrFun hns.unwrapped _).trans (congrArg (writeUnwrapped ns) (congrFun hn d))
  | parent p cs =>
    have hcs : WritesBare cs := hchildren
    rw [bare_parent] at hn ⊢
    cases p with
    | paragraph =>
      show writeUnwrapped (ns.map bare) (writeInlines (cs.map bare) d) = _
      rw [hns.unwrapped, hcs.inlines, writeUnwrapped]
    | _ => exact (congrFun hns.unwrapped _).trans (congrArg (writeUnwrapped ns) (congrFun hn d))

theorem writeItems_cons_bare (hchildren : WritesBare n.children) (hns : WritesBare ns)
    (ordered spread : Bool) (number : UInt32) :
    writeItems ordered spread number (n.bare :: ns.map bare) =
      writeItems ordered spread number (n :: ns) := by
  funext d
  cases n with
  | leaf l =>
    rw [bare_leaf]
    exact congrFun (hns.items ordered spread number) d
  | parent p cs =>
    have hcs : WritesBare cs := hchildren
    rw [bare_parent]
    cases p with
    | listItem itemSpread =>
      simp only [Parent.bare, writeItems, hcs.itemBody, hns.items, any_map_bare isListItem_bare]
    | _ => exact congrFun (hns.items ordered spread number) d

theorem writeRows_cons_bare (hchildren : WritesBare n.children) (hns : WritesBare ns)
    (columns : Nat) (align : List (Option Align)) (first : Bool) :
    writeRows columns align first (n.bare :: ns.map bare) =
      writeRows columns align first (n :: ns) := by
  funext d
  cases n with
  | leaf l =>
    rw [bare_leaf]
    exact congrFun (hns.rows columns align first) d
  | parent p cs =>
    have hcs : WritesBare cs := hchildren
    rw [bare_parent]
    cases p with
    | tableRow => simp only [Parent.bare, writeRows, hcs.cells, hns.rows, List.length_map]
    | _ => exact congrFun (hns.rows columns align first) d

theorem writeCells_cons_bare (hchildren : WritesBare n.children) (hns : WritesBare ns) :
    writeCells (n.bare :: ns.map bare) = writeCells (n :: ns) := by
  funext d
  cases n with
  | leaf l =>
    rw [bare_leaf]
    exact congrFun hns.cells d
  | parent p cs =>
    have hcs : WritesBare cs := hchildren
    rw [bare_parent]
    cases p with
    | tableCell header => simp only [Parent.bare, writeCells, hcs.unwrapped, hns.cells]
    | _ => exact congrFun hns.cells d

theorem writeDefinitions_cons_bare (hchildren : WritesBare n.children) (hns : WritesBare ns)
    (started : Bool) :
    writeDefinitions started (n.bare :: ns.map bare) = writeDefinitions started (n :: ns) := by
  funext d
  cases n with
  | leaf l =>
    rw [bare_leaf]
    exact congrFun (hns.definitions true) d
  | parent p cs =>
    have hcs : WritesBare cs := hchildren
    rw [bare_parent]
    cases p with
    | definitionTerm => simp only [Parent.bare, writeDefinitions, hcs.unwrapped, hns.definitions]
    | definitionDescription =>
      simp only [Parent.bare, writeDefinitions, hcs.blocks, hns.definitions]
    | _ => exact congrFun (hns.definitions true) d

theorem writesBare_cons (hplain : n.isPlain = true) (hn : writeNode n.bare = writeNode n)
    (hchildren : WritesBare n.children) (hns : WritesBare ns) : WritesBare (n :: ns) where
  blocks := writeBlocks_cons_bare hplain hn hns
  inlines := by
    funext d
    rw [List.map_cons, writeInlines, writeInlines, hn, hns.inlines]
  unwrapped := writeUnwrapped_cons_bare hn hchildren hns
  itemBody := by
    intro spread started
    funext d
    simp only [List.map_cons, writeItemBody, hns.itemBody, hn, asBlock_bare hplain]
  items := writeItems_cons_bare hchildren hns
  rows := writeRows_cons_bare hchildren hns
  cells := writeCells_cons_bare hchildren hns
  definitions := writeDefinitions_cons_bare hchildren hns

end

open CommonMark

mutual

theorem writeNode_bare : (n : Node) → (n.Everywhere fun m => m.isPlain = true) →
    writeNode n.bare = writeNode n ∧ WritesBare n.children
  | .leaf l, h =>
    ⟨writeNode_bare_of_children (Node.everywhere_leaf.mp h) writesBare_nil, writesBare_nil⟩
  | .parent p cs, h => by
    obtain ⟨hp, hcs⟩ := Node.everywhere_parent.mp h
    have hw := writesBare_of_plain cs hcs
    exact ⟨writeNode_bare_of_children (n := .parent p cs) hp hw, hw⟩

theorem writesBare_of_plain : (ns : List Node) → Plain ns → WritesBare ns
  | [], _ => writesBare_nil
  | n :: ns, h => by
    obtain ⟨hn, hns⟩ := List.forall_mem_cons.mp h
    obtain ⟨hwrite, hchildren⟩ := writeNode_bare n hn
    exact writesBare_cons (Node.Everywhere.self hn) hwrite hchildren (writesBare_of_plain ns hns)

end

theorem blockBreak_bare (separators started : Bool) (n : Node) :
    blockBreak separators started n.bare = blockBreak separators started n := by
  apply apply_bare
  · intro l
    rfl
  · intro p cs
    cases p with
    | block kind data target => cases data <;> rfl
    | _ => rfl

/-- Plain nodes are written, and reported on, as they are without what is taken off. -/
theorem draftOf_map_bare (separators : Bool) {ns : List Node} (h : Plain ns) :
    draftOf separators (ns.map bare) = draftOf separators ns := by
  have htop (started : Bool) (d : Draft) :
      writeTop separators started (ns.map bare) d = writeTop separators started ns d := by
    induction ns generalizing started d with
    | nil => rfl
    | cons n ns ih =>
      obtain ⟨hn, hns⟩ := List.forall_mem_cons.mp h
      simp only [List.map_cons, writeTop, blockBreak_bare, ih hns, (writeNode_bare n hn).1,
        asBlock_bare (Node.Everywhere.self hn)]
  rw [draftOf, draftOf, htop]

end Markdown

namespace Notebook
open Node CommonMark CodeCell Markdown

theorem codeOf_bare (unit : Node) : codeOf unit.bare = codeOf unit := by
  cases unit with
  | leaf l => rw [bare_leaf]; rfl
  | parent p cs =>
    rw [bare_parent, codeOf, codeOf, children, children, List.findSome?_map]
    congr 2
    funext c
    cases c with
    | leaf l => cases l <;> simp [Leaf.bare]
    | parent q ds => simp

theorem draftOf_prepared_bare {options : NotebookOptions} (h : options.markdown = .commonMark)
    (unit : Node) :
    draftOf true (prepared options unit.bare) = draftOf true (prepared options unit) := by
  have hdegrade := degrade_map_bare options.dropSolutions [unit]
  rw [List.map_singleton] at hdegrade
  rw [prepared, prepared, if_pos h, if_pos h, hdegrade,
    draftOf_map_bare true (plain_degrade options.dropSolutions [unit])]

theorem ofDocument_map_bare {options : NotebookOptions} (h : options.markdown = .commonMark)
    (frontmatter : Option Frontmatter) (ns : List Node) :
    ofDocument options frontmatter (ns.map bare) = ofDocument options frontmatter ns := by
  have hprose (unit : Node) : proseCells options.images (prepared options unit.bare) =
      proseCells options.images (prepared options unit) := by
    unfold proseCells write
    rw [draftOf_prepared_bare h]
  have hcells (unit : Node) : unitCells options unit.bare = unitCells options unit := by
    simp only [unitCells, ofUnit, isCodeCell_bare, codeOf_bare, hprose]
  have hdiagnostics (unit : Node) :
      unitDiagnostics options unit.bare = unitDiagnostics options unit := by
    simp only [unitDiagnostics, ofUnit, isCodeCell_bare, diagnose, draftOf_prepared_bare h]
  rw [ofDocument_eq, ofDocument_eq, lift_map_bare, List.flatMap_map, List.flatMap_map]
  simp only [hcells, hdiagnostics]

/-- Documents that differ in nothing but reference metadata and presentation attributes have the
same notebook in CommonMark, and the same is reported for them. -/
theorem ofDocument_eq_of_bare_eq {options : NotebookOptions} (h : options.markdown = .commonMark)
    (frontmatter : Option Frontmatter) {ms ns : List Node} (hbare : ms.map bare = ns.map bare) :
    ofDocument options frontmatter ms = ofDocument options frontmatter ns := by
  rw [← ofDocument_map_bare h frontmatter ms, hbare, ofDocument_map_bare h]

/-- An exercise with an image and a code cell, and an unknown node, which can be referred to by the
given name and look as it says. -/
def namedExercise (name : String) : List Node :=
  [.parent (.exercise { identifier := some name, label := some name } (some "1") (some name))
      [.leaf (.target name),
        .leaf (.image { url := "a.png", cssClass := some name, width := some name }),
        .parent (.block (some codeCellKind) none { label := some name })
          [.leaf (.code { value := "1", filename := some name })]],
    .parent (.other "widget" (.ofList [("html_id", .string name), ("class", .string name)])) []]

theorem ofDocument_eq_of_bare_eq_namedExercise :
    (namedExercise "a").map bare = (namedExercise "b").map bare ∧
      ofDocument { markdown := .commonMark } none (namedExercise "a") =
        ofDocument { markdown := .commonMark } none (namedExercise "b") := by
  have hbare : (namedExercise "a").map bare = (namedExercise "b").map bare := by decide
  exact ⟨hbare, ofDocument_eq_of_bare_eq rfl none hbare⟩

end Notebook
end MystNotebook
