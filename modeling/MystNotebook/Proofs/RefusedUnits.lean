import MystNotebook.Proofs.AttachedCells

/-! Serializers that fail. The first unit of prose that is refused decides what is reported, by its
place among all units, and no notebook is made; otherwise every unit has its cell. Neither the
images nor the code take part in the decision. -/
namespace MystNotebook

/-- What a computation fails with. -/
def failure {ε α : Type} : Except ε α → Option ε
  | .error e => some e
  | .ok _ => none

theorem failure_eq_some_iff {ε α : Type} {x : Except ε α} {e : ε} :
    failure x = some e ↔ x = .error e := by
  cases x <;> simp [failure]

theorem failure_eq_none_iff {ε α : Type} {x : Except ε α} :
    failure x = none ↔ ∃ a, x = .ok a := by
  cases x <;> simp [failure]

namespace Notebook
variable {ε : Type} (serialize : Serializer ε) (options : NotebookOptions)

/-- Why the serializer refuses the unit, if it does; code cells are not asked. -/
def refusal (unit : Node) : Option ε :=
  if unit.isCodeCell then none else failure (serialize (prepared options unit))

/-- What the unit shows in a Markdown cell: its text without the breaks in front. -/
def proseOf (unit : Node) : Option (List Char) :=
  (serialize (prepared options unit)).toOption.map fun written => stripBlockBreaks written.1.toList

/-- Code always makes a cell, prose if it is not blank. -/
def makesCell (unit : Node) : Bool :=
  unit.isCodeCell || (proseOf serialize options unit).any (·.any (!Text.isBlank ·))

/-- The cell of the unit. -/
def IsCellOf (unit : Node) (cell : Cell) : Prop :=
  if unit.isCodeCell then cell = .ofCode (codeOf unit)
  else ∃ text diagnostics, serialize (prepared options unit) = .ok (text, diagnostics) ∧
    cell = markdownCell options.images text

/-- The units are the same but for what stands in code cells. -/
def SameProse (us us' : List Node) : Prop :=
  List.Forall₂ (fun u u' => u = u' ∨ u.isCodeCell = true ∧ u'.isCodeCell = true) us us'

variable {serialize options} {unit : Node} {units before after : List Node}

theorem refusal_of_isCodeCell (h : unit.isCodeCell = true) :
    refusal serialize options unit = none := if_pos h

theorem refusal_of_not_isCodeCell (h : unit.isCodeCell = false) :
    refusal serialize options unit = failure (serialize (prepared options unit)) := by
  rw [refusal, h, if_neg Bool.false_ne_true]

/-! The loop over the units. -/

/-- A refused unit ends it, whatever comes behind. -/
theorem cellsOf_of_refusal {e : ε} (hbefore : ∀ u ∈ before, refusal serialize options u = none)
    (hunit : refusal serialize options unit = some e) (index : Nat) :
    cellsOf serialize options index (before ++ unit :: after) =
      .error ⟨index + before.length, e⟩ := by
  induction before generalizing index with
  | nil =>
    cases hcode : unit.isCodeCell with
    | true =>
      rw [refusal_of_isCodeCell hcode] at hunit
      cases hunit
    | false =>
      rw [refusal_of_not_isCodeCell hcode, failure_eq_some_iff] at hunit
      simp [cellsOf, hcode, hunit]
  | cons u before ih =>
    obtain ⟨hu, hbefore⟩ := List.forall_mem_cons.mp hbefore
    have hrest := ih hbefore (index + 1)
    have hindex : index + 1 + before.length = index + (u :: before).length := by
      rw [List.length_cons]
      omega
    rw [hindex] at hrest
    cases hcode : u.isCodeCell with
    | true => simp [cellsOf, hcode, hrest, bind, Except.bind]
    | false =>
      rw [refusal_of_not_isCodeCell hcode, failure_eq_none_iff] at hu
      obtain ⟨⟨text, own⟩, hu⟩ := hu
      simp [cellsOf, hcode, hu, hrest, bind, Except.bind]

theorem isBlank_markdownCell_eq (images : Images) (text : String) :
    (markdownCell images text).isBlank = (stripBlockBreaks text.toList).all Text.isBlank := by
  cases images with
  | reference => rw [markdownCell_reference, Cell.isBlank_ofMarkdown, String.toList_ofList]
  | attachment images =>
    rw [isBlank_markdownCell, markdownCell_reference, Cell.isBlank_ofMarkdown,
      String.toList_ofList]

theorem makesCell_of_serialize (hcode : unit.isCodeCell = false) {text : String}
    {diagnostics : List Markdown.Diagnostic}
    (h : serialize (prepared options unit) = .ok (text, diagnostics)) :
    makesCell serialize options unit = !(markdownCell options.images text).isBlank := by
  rw [isBlank_markdownCell_eq, List.not_all_eq_any_not, makesCell, hcode, Bool.false_or, proseOf, h]
  rfl

/-- Units that are not refused all have their cells, in their order. -/
theorem cellsOf_of_accepted (h : ∀ u ∈ units, refusal serialize options u = none) (index : Nat) :
    ∃ cells diagnostics, cellsOf serialize options index units = .ok (cells, diagnostics) ∧
      List.Forall₂ (IsCellOf serialize options) (units.filter (makesCell serialize options))
        cells := by
  induction units generalizing index with
  | nil => exact ⟨[], [], rfl, .nil⟩
  | cons u units ih =>
    obtain ⟨hu, hunits⟩ := List.forall_mem_cons.mp h
    obtain ⟨cells, diagnostics, hcells, hshown⟩ := ih hunits (index + 1)
    cases hcode : u.isCodeCell with
    | true =>
      refine ⟨.ofCode (codeOf u) :: cells, diagnostics, ?_, ?_⟩
      · simp [cellsOf, hcode, hcells, bind, Except.bind]
      · rw [List.filter_cons_of_pos (by simp [makesCell, hcode])]
        exact .cons (by rw [IsCellOf, if_pos hcode]) hshown
    | false =>
      rw [refusal_of_not_isCodeCell hcode, failure_eq_none_iff] at hu
      obtain ⟨⟨text, own⟩, hu⟩ := hu
      have hmakes := makesCell_of_serialize hcode hu
      have hcell : IsCellOf serialize options u (markdownCell options.images text) := by
        rw [IsCellOf, hcode, if_neg Bool.false_ne_true]
        exact ⟨text, own, hu, rfl⟩
      cases hblank : (markdownCell options.images text).isBlank with
      | true =>
        refine ⟨cells, own ++ diagnostics, ?_, ?_⟩
        · simp [cellsOf, hcode, hu, hcells, hblank, bind, Except.bind]
        · rwa [List.filter_cons_of_neg (by simp [hmakes, hblank])]
      | false =>
        refine ⟨markdownCell options.images text :: cells, own ++ diagnostics, ?_, ?_⟩
        · simp [cellsOf, hcode, hu, hcells, hblank, bind, Except.bind]
        · rw [List.filter_cons_of_pos (by simp [hmakes, hblank])]
          exact .cons hcell hshown

variable (serialize options) in
/-- Either no unit is refused, or there is a first one. -/
theorem accepted_or_firstRefusal (units : List Node) :
    (∀ u ∈ units, refusal serialize options u = none) ∨
      ∃ before unit after e, units = before ++ unit :: after ∧
        (∀ u ∈ before, refusal serialize options u = none) ∧
        refusal serialize options unit = some e := by
  induction units with
  | nil => exact .inl (by simp)
  | cons u units ih =>
    cases hu : refusal serialize options u with
    | some e => exact .inr ⟨[], u, units, e, rfl, by simp, hu⟩
    | none =>
      rcases ih with hall | ⟨before, unit, after, e, rfl, hbefore, hunit⟩
      · exact .inl (List.forall_mem_cons.mpr ⟨hu, hall⟩)
      · exact .inr ⟨u :: before, unit, after, e, rfl, List.forall_mem_cons.mpr ⟨hu, hbefore⟩, hunit⟩

/-! The place of the first refused unit. -/

/-- The unit at the index is refused, and none before it is. -/
def IsFirstRefusal (serialize : Serializer ε) (options : NotebookOptions) (units : List Node)
    (e : SerializeError ε) : Prop :=
  units[e.index]?.bind (refusal serialize options) = some e.source ∧
    ∀ j < e.index, units[j]?.bind (refusal serialize options) = none

theorem isFirstRefusal_append {e : ε} (after : List Node)
    (hbefore : ∀ u ∈ before, refusal serialize options u = none)
    (hunit : refusal serialize options unit = some e) :
    IsFirstRefusal serialize options (before ++ unit :: after) ⟨before.length, e⟩ := by
  constructor
  · simpa using hunit
  · intro j hj
    have hj : j < before.length := hj
    rw [List.getElem?_append_left hj, List.getElem?_eq_getElem hj]
    exact hbefore _ (List.getElem_mem hj)

/-- There is only one. -/
theorem IsFirstRefusal.eq {e e' : SerializeError ε}
    (h : IsFirstRefusal serialize options units e)
    (h' : IsFirstRefusal serialize options units e') : e = e' := by
  obtain ⟨index, source⟩ := e
  obtain ⟨index', source'⟩ := e'
  obtain ⟨hsource, hbefore⟩ := h
  obtain ⟨hsource', hbefore'⟩ := h'
  simp only at hsource hbefore hsource' hbefore'
  have hindex : index = index' := by
    rcases Nat.lt_trichotomy index index' with hlt | heq | hlt
    · rw [hbefore' index hlt] at hsource
      cases hsource
    · exact heq
    · rw [hbefore index' hlt] at hsource'
      cases hsource'
  subst hindex
  rw [hsource, Option.some_inj] at hsource'
  rw [hsource']

theorem exists_isFirstRefusal_iff :
    (∃ e, IsFirstRefusal serialize options units e) ↔
      ∃ u ∈ units, (refusal serialize options u).isSome = true := by
  constructor
  · rintro ⟨e, hsource, -⟩
    obtain ⟨u, hu, hrefused⟩ := Option.bind_eq_some_iff.mp hsource
    exact ⟨u, List.mem_of_getElem? hu, Option.isSome_of_eq_some hrefused⟩
  · rintro ⟨u, hu, hrefused⟩
    rcases accepted_or_firstRefusal serialize options units with
      hall | ⟨before, unit, after, e, rfl, hbefore, hunit⟩
    · rw [hall u hu] at hrefused
      cases hrefused
    · exact ⟨_, isFirstRefusal_append after hbefore hunit⟩

/-- The loop reports the first refused unit and nothing else. -/
theorem cellsOf_eq_error_iff {e : SerializeError ε} :
    cellsOf serialize options 0 units = .error e ↔ IsFirstRefusal serialize options units e := by
  rcases accepted_or_firstRefusal serialize options units with
    hall | ⟨before, unit, after, e', rfl, hbefore, hunit⟩
  · obtain ⟨cells, diagnostics, hcells, -⟩ := cellsOf_of_accepted hall 0
    rw [hcells]
    refine iff_of_false (by simp) fun h => ?_
    obtain ⟨u, hu, hrefused⟩ := exists_isFirstRefusal_iff.mp ⟨e, h⟩
    rw [hall u hu] at hrefused
    cases hrefused
  · have hfirst := isFirstRefusal_append after hbefore hunit
    rw [cellsOf_of_refusal hbefore hunit, Nat.zero_add, Except.error.injEq]
    exact ⟨fun heq => heq ▸ hfirst, fun h => hfirst.eq h⟩

theorem failure_assemble (frontmatter : Option Frontmatter) (ns : List Node) :
    failure (assemble serialize options frontmatter ns) =
      failure (cellsOf serialize options 0 (CodeCell.lift options.dropsSolutions ns)) := by
  rw [assemble, CodeCell.units_lifting]
  cases cellsOf serialize options 0 (CodeCell.lift options.dropsSolutions ns) <;> rfl

theorem assemble_eq_error_iff {e : SerializeError ε} {frontmatter : Option Frontmatter}
    {ns : List Node} :
    assemble serialize options frontmatter ns = .error e ↔
      IsFirstRefusal serialize options (CodeCell.lift options.dropsSolutions ns) e := by
  rw [← failure_eq_some_iff, failure_assemble, failure_eq_some_iff, cellsOf_eq_error_iff]

theorem assemble_of_accepted {ns : List Node}
    (h : ∀ unit ∈ CodeCell.lift options.dropsSolutions ns, refusal serialize options unit = none)
    (frontmatter : Option Frontmatter) :
    ∃ notebook diagnostics, assemble serialize options frontmatter ns =
        .ok (notebook, diagnostics) ∧
      List.Forall₂ (IsCellOf serialize options)
        ((CodeCell.lift options.dropsSolutions ns).filter (makesCell serialize options))
        notebook.cells := by
  obtain ⟨cells, diagnostics, hcells, hshown⟩ := cellsOf_of_accepted h 0
  refine ⟨ofCells cells frontmatter, diagnostics, ?_, hshown⟩
  rw [assemble, CodeCell.units_lifting, hcells]
  rfl

/-- Only what stands in code cells has changed, so each unit is refused as before. -/
theorem SameProse.isFirstRefusal_iff {us us' : List Node} (h : SameProse us us')
    {e : SerializeError ε} :
    IsFirstRefusal serialize options us e ↔ IsFirstRefusal serialize options us' e := by
  have hplaces (j : Nat) : us[j]?.bind (refusal serialize options) =
      us'[j]?.bind (refusal serialize options) := by
    induction h generalizing j with
    | nil => rfl
    | cons hu hrest ih =>
      cases j with
      | succ j => exact ih j
      | zero =>
        rcases hu with rfl | ⟨hu, hu'⟩
        · rfl
        · exact (refusal_of_isCodeCell hu).trans (refusal_of_isCodeCell hu').symm
  simp only [IsFirstRefusal, hplaces]

/-- There is an error exactly if some unit of prose is refused, and it is that of the first; else
the units have their cells. The images, the frontmatter and the code do not matter for that. -/
theorem assemble_allOrNothing (serialize : Serializer ε) (options : NotebookOptions)
    (frontmatter : Option Frontmatter) (ns : List Node) :
    ((∃ e, assemble serialize options frontmatter ns = .error e) ↔
      ∃ unit ∈ CodeCell.lift options.dropsSolutions ns,
        (refusal serialize options unit).isSome = true) ∧
    (∀ e, assemble serialize options frontmatter ns = .error e ↔
      IsFirstRefusal serialize options (CodeCell.lift options.dropsSolutions ns) e) ∧
    ((∀ unit ∈ CodeCell.lift options.dropsSolutions ns, refusal serialize options unit = none) →
      ∃ notebook diagnostics, assemble serialize options frontmatter ns =
          .ok (notebook, diagnostics) ∧
        List.Forall₂ (IsCellOf serialize options)
          ((CodeCell.lift options.dropsSolutions ns).filter (makesCell serialize options))
          notebook.cells) ∧
    ∀ images frontmatter' ns',
      SameProse (CodeCell.lift options.dropsSolutions ns)
        (CodeCell.lift options.dropsSolutions ns') →
      failure (assemble serialize { options with images := images } frontmatter' ns') =
        failure (assemble serialize options frontmatter ns) := by
  refine ⟨?_, fun e => assemble_eq_error_iff, fun h => assemble_of_accepted h frontmatter, ?_⟩
  · simp only [assemble_eq_error_iff, exists_isFirstRefusal_iff]
  · intro images frontmatter' ns' hsame
    refine Option.ext fun e => ?_
    rw [failure_eq_some_iff, failure_eq_some_iff, assemble_eq_error_iff, assemble_eq_error_iff]
    -- the images are in the options, but no refusal looks at them
    exact hsame.isFirstRefusal_iff.symm

/-- Refuses a unit that is a directive. -/
def refusingDirectives : Serializer String
  | .parent (.directive name _ _ _) _ :: _ => .error name
  | _ => .ok ("text\n", [])

/-- A paragraph, code and a directive; degraded, the directive is a piece of code. -/
def directiveBehindCode (source : String) : List Node :=
  [.paragraph [.text "fine"],
    .parent (.block (some Node.codeCellKind) none {}) [.leaf (.code { value := source })],
    .parent (.directive "mermaid" none none (some "graph")) []]

theorem assemble_allOrNothing_directive :
    SameProse (CodeCell.lift false (directiveBehindCode "x"))
      (CodeCell.lift false (directiveBehindCode "y")) ∧
    failure (assemble refusingDirectives { images := .attachment [] } none
      (directiveBehindCode "y")) = some ⟨2, "mermaid"⟩ ∧
    (∀ unit ∈ CodeCell.lift false (directiveBehindCode "x"),
      refusal refusingDirectives { markdown := .commonMark } unit = none) ∧
    ∃ notebook diagnostics, assemble refusingDirectives { markdown := .commonMark } none
        (directiveBehindCode "x") = .ok (notebook, diagnostics) ∧
      List.Forall₂ (IsCellOf refusingDirectives { markdown := .commonMark })
        ((CodeCell.lift false (directiveBehindCode "x")).filter
          (makesCell refusingDirectives { markdown := .commonMark })) notebook.cells := by
  have hsame : SameProse (CodeCell.lift false (directiveBehindCode "x"))
      (CodeCell.lift false (directiveBehindCode "y")) :=
    .cons (.inl rfl) (.cons (.inr ⟨by decide, by decide⟩) (.cons (.inl rfl) .nil))
  have haccepted : ∀ unit ∈ CodeCell.lift false (directiveBehindCode "x"),
      refusal refusingDirectives { markdown := .commonMark } unit = none := by
    have hunits : CodeCell.lift false (directiveBehindCode "x") = directiveBehindCode "x" := rfl
    rw [hunits, directiveBehindCode]
    exact List.forall_mem_cons.mpr ⟨rfl, List.forall_mem_cons.mpr ⟨rfl,
      List.forall_mem_singleton.mpr rfl⟩⟩
  refine ⟨hsame, ?_, haccepted, ?_⟩
  · have h := (assemble_allOrNothing refusingDirectives {} none (directiveBehindCode "x")).2.2.2
      (.attachment []) none (directiveBehindCode "y") hsame
    exact h.trans rfl
  · exact (assemble_allOrNothing refusingDirectives { markdown := .commonMark } none
      (directiveBehindCode "x")).2.2.1 haccepted

end Notebook
end MystNotebook
