import MystNotebook.Markdown.Write

/-! The children that each kind of parent writes, and the leaves that no parent above them leaves
out. -/
namespace MystNotebook.Markdown

def isTableCell : Node → Bool
  | .parent (.tableCell _) _ => true
  | _ => false

def isDefinitionPart : Node → Bool
  | .parent .definitionTerm _ | .parent .definitionDescription _ => true
  | _ => false

/-- The parts of a table and of a definition list are only written there. -/
def standsAlone (n : Node) : Bool := !isTableRow n && !isTableCell n && !isDefinitionPart n

/-- The kind of child of which only the first is written, as an argument or as an option. -/
def leads : Parent → Node → Bool
  | .admonition _ _ | .exercise _ _ _ | .solution _ _ | .proof _ _ _ | .aside _ _ => ofKind isTitle
  | .card _ => ofKind isCardTitle
  | .details _ => ofKind isSummary
  | .container kind _ _ _ =>
    if kind = some "figure" then isImage
    else if kind = some "table" ∨ kind = some "code" then ofKind isCaption
    else nowhere
  | _ => nowhere

/-- The other children that are written. -/
def follows (p : Parent) (n : Node) : Bool :=
  match p with
  | .list _ _ _ => isListItem n
  | .table _ => isTableRow n
  | .tableRow => isTableCell n
  | .definitionList => isDefinitionPart n
  | .container kind _ _ _ => kind != some "code" && standsAlone n && !leads p n
  | .role _ value => value.isNone && standsAlone n
  | p => standsAlone n && !leads p n

def writtenChildren (p : Parent) (cs : List Node) : List Node :=
  (cs.find? (leads p)).toList ++ cs.filter (follows p)

/-- The leaf stands in the node, and no parent on the way to it leaves it out. -/
inductive Shown (l : Leaf) : Node → Prop
  | here : Shown l (.leaf l)
  | inside {p : Parent} {cs : List Node} {c : Node} : c ∈ writtenChildren p cs → Shown l c →
    Shown l (.parent p cs)

/-- The value of a text and the url of an image. -/
def word : Leaf → List Char
  | .text value => value.toList
  | .image i => i.url.toList
  | _ => []

/-- The leaf is shown in one of the nodes that `select` takes. -/
def ShownIn (select : Node → Bool) (l : Leaf) (ns : List Node) : Prop :=
  ∃ n ∈ ns, select n = true ∧ Shown l n

section
variable {select select' : Node → Bool} {l : Leaf} {p : Parent} {n : Node} {cs ns : List Node}

theorem not_shownIn_nil : ¬ ShownIn select l [] := by
  rintro ⟨n, hn, -⟩
  cases hn

theorem shownIn_cons :
    ShownIn select l (n :: ns) ↔ (select n = true ∧ Shown l n) ∨ ShownIn select l ns := by
  simp [ShownIn]

theorem shownIn_cons_of_not (h : select n = false) :
    ShownIn select l (n :: ns) ↔ ShownIn select l ns := by
  simp [shownIn_cons, h]

theorem ShownIn.mono (h : ShownIn select l ns) (hselect : ∀ n, select n = true → select' n = true) :
    ShownIn select' l ns := by
  obtain ⟨n, hn, hs, hshown⟩ := h
  exact ⟨n, hn, hselect n hs, hshown⟩

theorem shown_leaf {l' : Leaf} : Shown l (.leaf l') ↔ l' = l := by
  constructor
  · rintro ⟨⟩
    rfl
  · rintro rfl
    exact .here

theorem shown_parent : Shown l (.parent p cs) ↔
    (∃ c, cs.find? (leads p) = some c ∧ Shown l c) ∨ ShownIn (follows p) l cs := by
  constructor
  · rintro (_ | ⟨hc, hshown⟩)
    rcases List.mem_append.mp hc with hc | hc
    · exact .inl ⟨_, Option.mem_toList.mp hc, hshown⟩
    · exact .inr ⟨_, (List.mem_filter.mp hc).1, (List.mem_filter.mp hc).2, hshown⟩
  · rintro (⟨c, hc, hshown⟩ | ⟨c, hc, hfollows, hshown⟩)
    · exact .inside (List.mem_append_left _ (Option.mem_toList.mpr hc)) hshown
    · exact .inside (List.mem_append_right _ (List.mem_filter.mpr ⟨hc, hfollows⟩)) hshown

theorem find?_nowhere (cs : List Node) : cs.find? nowhere = none :=
  List.find?_eq_none.mpr fun _ _ => Bool.false_ne_true

/-- Where no child leads. -/
theorem shown_parent_of_leads (hp : leads p = nowhere) :
    Shown l (.parent p cs) ↔ ShownIn (follows p) l cs := by
  simp [shown_parent, hp, find?_nowhere]

/-- Most kinds write all children that stand alone. -/
theorem shownIn_standsAlone (hleads : leads p = nowhere)
    (hfollows : follows p = fun n => standsAlone n && !leads p n) (h : Shown l (.parent p cs)) :
    ShownIn standsAlone l cs := by
  refine ((shown_parent_of_leads hleads).mp h).mono fun n hn => ?_
  rw [hfollows, Bool.and_eq_true] at hn
  exact hn.1

theorem leads_container {kind : Option String} (hfigure : kind ≠ some "figure")
    (htable : kind ≠ some "table") (hcode : kind ≠ some "code") (t : Target)
    (enumerator cssClass : Option String) :
    leads (.container kind t enumerator cssClass) = nowhere := by
  simp [leads, hfigure, htable, hcode]

theorem leads_title {kind : Parent → Bool}
    (hkind : kind ∈ [isTitle, isCaption, isCardTitle, isSummary]) (hp : kind p = true) :
    leads p = nowhere ∧ follows p = fun n => standsAlone n && !leads p n := by
  simp only [List.mem_cons, List.not_mem_nil, or_false] at hkind
  rcases hkind with rfl | rfl | rfl | rfl
  · cases p with
    | admonitionTitle => exact ⟨rfl, rfl⟩
    | _ => cases hp
  · cases p with
    | caption => exact ⟨rfl, rfl⟩
    | _ => cases hp
  · cases p with
    | cardTitle => exact ⟨rfl, rfl⟩
    | _ => cases hp
  · cases p with
    | summary => exact ⟨rfl, rfl⟩
    | _ => cases hp

theorem firstImage_of_find? {c : Node} (h : cs.find? isImage = some c) :
    ∃ i, c = .leaf (.image i) ∧ firstImage cs = some i := by
  induction cs with
  | nil => cases h
  | cons n ns ih =>
    cases hn : isImage n with
    | true =>
      rw [List.find?_cons_of_pos hn, Option.some.injEq] at h
      unfold isImage at hn
      split at hn
      next i => exact ⟨i, h.symm, rfl⟩
      next => cases hn
    | false =>
      rw [List.find?_cons_of_neg (by simp [hn])] at h
      obtain ⟨i, hi, hfirst⟩ := ih h
      refine ⟨i, hi, ?_⟩
      rw [firstImage, List.findSome?_cons]
      split
      next heq =>
        split at heq
        next => cases hn
        next => cases heq
      next => exact hfirst

end

end MystNotebook.Markdown
