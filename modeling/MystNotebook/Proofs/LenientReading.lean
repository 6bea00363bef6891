import MystNotebook.Proofs.NodeRoundTrip

/-! Objects that are read as nodes, whatever they hold. A type and readable children are enough: an
object whose other fields suit no modelled kind becomes a node of kind `other`, and neither the
nodes above it nor those below it are read in another way. -/
namespace MystNotebook
open Json

theorem Leaf.typeName_of_decode {name : String} {f : Fields} {l : Leaf}
    (h : Leaf.decode name f = some l) : l.typeName = name := by
  unfold Leaf.decode at h
  split at h <;> simp only [Option.map_eq_some_iff, Option.some.injEq, reduceCtorEq] at h
  all_goals grind [Leaf.typeName]

theorem Parent.typeName_of_decode {name : String} {f : Fields} {p : Parent}
    (h : Parent.decode name f = some p) : p.typeName = name := by
  unfold Parent.decode at h
  split at h <;>
    simp only [Option.bind_eq_bind, Option.bind_eq_some_iff, Option.some.injEq, reduceCtorEq] at h
  all_goals grind [Parent.typeName]

namespace Node

def isOther : Node → Bool
  | .leaf _ => false
  | .parent p _ => p.isOther

/-- What the children are read from, nothing if the field is missing. -/
def childValues (f : Fields) : Option (List Value) :=
  match f.get? "children" with
  | none => some []
  | some (.array vs) => some vs
  | some _ => none

/-- An object whose type is a text, and whose children are such objects again. Nothing is said of
the other fields. -/
inductive Typed : Value → Prop
  | object {fs : List (String × Value)} {name : String} {vs : List Value} :
    (Fields.ofList fs).get? "type" = some (.string name) →
    childValues (.ofList fs) = some vs → (∀ v ∈ vs, Typed v) → Typed (.object fs)

/-- The fields from which a node was read, with the given children in place of what stood there. -/
def withChildren (f : Fields) (cs : List Node) : Fields :=
  if cs.isEmpty then f.erase "children" else f.insert "children" (.array (encodeAll cs))

theorem childrenOf_of_childValues {f : Fields} {vs : List Value} (h : childValues f = some vs) :
    ((f.get? "children").map childrenOf).getD (some []) = decodeAll vs := by
  unfold childValues at h
  split at h
  next hnone =>
    cases h
    rw [hnone, decodeAll]
    rfl
  next items hsome =>
    cases h
    rw [hsome]
    rfl
  next => cases h

/-! One object, from what its children have been read as. -/

section
variable {f : Fields} {name : String} {cs : List Node}

theorem decodeOther_some (f : Fields) (name : String) (cs : List Node) :
    decodeOther name f (some cs) = some (.parent (.other name f.attributes) cs) := rfl

/-- A modelled kind if the fields suit one, and the kind `other` if they do not. -/
theorem ofFields_cases (h : f.get? "type" = some (.string name)) (cs : List Node) :
    (∃ l, Leaf.decode name f = some l ∧ ofFields f (some cs) = some (.leaf l)) ∨
    (∃ p, Parent.decode name f = some p ∧ ofFields f (some cs) = some (.parent p cs)) ∨
    Leaf.decode name f = none ∧ Parent.decode name f = none ∧
      ofFields f (some cs) = some (.parent (.other name f.attributes) cs) := by
  rw [ofFields_eq_or h, decodeOther_some, decodeModelled]
  cases hleaf : Leaf.decode name f with
  | some l => exact .inl ⟨l, rfl, rfl⟩
  | none =>
    right
    cases hparent : Parent.decode name f with
    | some p => exact .inl ⟨p, rfl, rfl⟩
    | none => exact .inr ⟨rfl, rfl, rfl⟩

/-- What a node of kind `other` is written as has every field that it was read from. -/
theorem parentFields_attributes (h : f.get? "type" = some (.string name)) (cs : List Node) :
    parentFields (.other name f.attributes) cs = withChildren f cs := by
  apply Fields.ext_get?
  intro key
  unfold withChildren
  by_cases hchildren : key = "children"
  · subst hchildren
    rw [parentFields, Fields.get?_ofList_append, Fields.get?_ofList_append,
      Fields.get?_ofList_singleton, if_neg (by decide), Option.none_or, Parent.fields,
      Fields.ofList_entries, Fields.get?_attributes_children, Option.or_none, childrenEntry]
    by_cases hcs : cs.isEmpty = true
    · rw [if_pos (by simpa [Parent.isOther] using hcs), if_pos hcs, Fields.get?_erase_self]
      rfl
    · rw [if_neg (by simpa [Parent.isOther] using hcs), if_neg hcs, Fields.get?_insert_self,
        Fields.get?_ofList_singleton, if_pos rfl]
  · have hkept : (if cs.isEmpty then f.erase "children"
        else f.insert "children" (.array (encodeAll cs))).get? key = f.get? key := by
      split
      · exact Fields.get?_erase_of_ne hchildren f
      · exact Fields.get?_insert_of_ne hchildren f _
    rw [hkept]
    by_cases htype : key = "type"
    · rw [htype, get?_parentFields_type, h, Parent.typeName]
    · have hattributes := attributes_parentFields (.other name f.attributes) cs
      rw [Parent.fields, Fields.ofList_entries, Fields.attributes_attributes] at hattributes
      rw [← Fields.get?_attributes_of_ne htype hchildren, hattributes,
        Fields.get?_attributes_of_ne htype hchildren]

end

theorem exists_decodeAll {vs : List Value} (h : ∀ v ∈ vs, ∃ n, decode v = some n) :
    ∃ ns, decodeAll vs = some ns := by
  induction vs with
  | nil => exact ⟨[], by rw [decodeAll]⟩
  | cons v vs ih =>
    obtain ⟨hv, hvs⟩ := List.forall_mem_cons.mp h
    obtain ⟨n, hn⟩ := hv
    obtain ⟨ns, hns⟩ := ih hvs
    exact ⟨n :: ns, by rw [decodeAll, hn, hns]; rfl⟩

theorem exists_ofFields {f : Fields} {name : String} (h : f.get? "type" = some (.string name))
    (cs : List Node) : ∃ n, ofFields f (some cs) = some n := by
  rcases ofFields_cases h cs with ⟨l, -, hl⟩ | ⟨p, -, hp⟩ | ⟨-, -, hother⟩
  · exact ⟨_, hl⟩
  · exact ⟨_, hp⟩
  · exact ⟨_, hother⟩

theorem Typed.exists_decode {v : Value} (h : Typed v) : ∃ n, decode v = some n := by
  induction h with
  | object htype hchildren _ ih =>
    obtain ⟨cs, hcs⟩ := exists_decodeAll ih
    rw [decode_object, childrenOf_of_childValues hchildren, hcs]
    exact exists_ofFields htype cs

/-- No object with a type and readable children fails, and it is read as a node of that type. It
becomes a node of kind `other` exactly if its own fields suit no modelled kind, whatever stands
below it, and then it is written as it was read, apart from its children, which are written again.
-/
theorem decode_typed {fs : List (String × Value)} (h : Typed (.object fs)) {name : String}
    (htype : (Fields.ofList fs).get? "type" = some (.string name)) :
    ∃ (n : Node) (vs : List Value) (cs : List Node),
      decode (.object fs) = some n ∧ n.typeName = name ∧
      childValues (.ofList fs) = some vs ∧ decodeAll vs = some cs ∧
      (n.isOther = true ↔ Leaf.decode name (.ofList fs) = none ∧
        Parent.decode name (.ofList fs) = none) ∧
      (n.isOther = true → n.children = cs ∧
        n.encode = .ofFields (withChildren (.ofList fs) cs)) := by
  obtain @⟨_, _, vs, -, hchildren, hbelow⟩ := h
  obtain ⟨cs, hcs⟩ := exists_decodeAll fun v hv => (hbelow v hv).exists_decode
  have hdecode : decode (.object fs) = ofFields (.ofList fs) (some cs) := by
    rw [decode_object, childrenOf_of_childValues hchildren, hcs]
  rw [hdecode]
  rcases ofFields_cases htype cs with ⟨l, hl, hn⟩ | ⟨p, hp, hn⟩ | ⟨hleaf, hparent, hn⟩
  · refine ⟨.leaf l, vs, cs, hn, Leaf.typeName_of_decode hl, hchildren, hcs, ?_, ?_⟩
    · simp [isOther, hl]
    · simp [isOther]
  · have hkind : p.isOther = false := Parent.isOther_of_decode hp
    refine ⟨.parent p cs, vs, cs, hn, Parent.typeName_of_decode hp, hchildren, hcs, ?_, ?_⟩
    · simp [isOther, hkind, hp]
    · simp [isOther, hkind]
  · refine ⟨_, vs, cs, hn, rfl, hchildren, hcs, ?_, ?_⟩
    · simp [isOther, Parent.isOther, hleaf, hparent]
    · intro _
      refine ⟨rfl, ?_⟩
      rw [encode_parent, parentFields_attributes htype]

/-- A list whose `ordered` is null and that has a note. Of its children one is an image whose url is
a number, and the other is a paragraph around a text that has one field too many. -/
def annotatedList : List (String × Value) :=
  [("type", .string "list"), ("ordered", .null), ("note", .number (.int 3)),
    ("children", .array
      [.object [("type", .string "image"), ("url", .number (.int 3))],
        .object [("type", .string "paragraph"),
          ("children", .array
            [.object [("type", .string "text"), ("value", .string "a"), ("lang", .null)]])]])]

theorem decode_typed_annotatedList :
    Typed (.object annotatedList) ∧
      ∃ n cs, decode (.object annotatedList) = some n ∧ n.typeName = "list" ∧ n.children = cs ∧
        n.encode = .ofFields (withChildren (.ofList annotatedList) cs) := by
  have htyped : Typed (.object annotatedList) := by
    refine .object rfl rfl (List.forall_mem_cons.mpr ⟨?_, List.forall_mem_cons.mpr ⟨?_, ?_⟩⟩)
    · exact .object rfl rfl (by simp)
    · refine .object rfl rfl (List.forall_mem_cons.mpr ⟨?_, by simp⟩)
      exact .object rfl rfl (by simp)
    · simp
  obtain ⟨n, vs, cs, hn, hname, -, -, hkind, hother⟩ := decode_typed htyped rfl
  obtain ⟨hcs, hencode⟩ := hother (hkind.mpr ⟨rfl, rfl⟩)
  exact ⟨htyped, n, cs, hn, hname, hcs, hencode⟩

/-! A document is a record, of which no other field is read. -/

/-- What a root's fields are read as, one after the other. -/
def readRoot (cs : List Node) (e : String × Value) : Except DecodeError (List Node) :=
  if e.1 = "children" then do
    match decodeAll (← e.2.items) with
    | some ns => .ok ns
    | none => .error .unreadableNode
  else .ok cs

theorem foldlM_readRoot_of_none {es : List (String × Value)}
    (h : Fields.lookup "children" es = none) (cs : List Node) : es.foldlM readRoot cs = .ok cs := by
  induction es with
  | nil => rfl
  | cons e es ih =>
    rw [Fields.lookup] at h
    split at h
    next => cases h
    next hkey =>
      rw [List.foldlM_cons, readRoot, if_neg hkey]
      exact ih h

theorem foldlM_readRoot {es : List (String × Value)} (hsorted : es.Pairwise (·.1 < ·.1))
    {vs : List Value} (h : Fields.lookup "children" es = some (.array vs)) {ns : List Node}
    (hns : decodeAll vs = some ns) (cs : List Node) : es.foldlM readRoot cs = .ok ns := by
  induction es with
  | nil => cases h
  | cons e es ih =>
    obtain ⟨hbehind, hsortedRest⟩ := List.pairwise_cons.mp hsorted
    rw [Fields.lookup] at h
    split at h
    next hkey =>
      obtain ⟨key, value⟩ := e
      obtain rfl : key = "children" := hkey
      obtain rfl : value = .array vs := Option.some.inj h
      have hread : readRoot cs ("children", .array vs) = .ok ns := by
        simp [readRoot, Value.items, hns, bind, Except.bind]
      have hrest : Fields.lookup "children" es = none :=
        Fields.lookup_eq_none_of_forall_lt hsortedRest hbehind
      rw [List.foldlM_cons, hread]
      exact foldlM_readRoot_of_none hrest ns
    next hkey =>
      rw [List.foldlM_cons, readRoot, if_neg hkey]
      exact ih hsortedRest h

/-- A document of such objects is read, with one node for each of them. -/
theorem decodeDocument_typed {fs : List (String × Value)} {vs : List Value}
    (hchildren : childValues (.ofList fs) = some vs) (h : ∀ v ∈ vs, Typed v) :
    ∃ ns, decodeDocument (.object fs) = .ok ns ∧ decodeAll vs = some ns := by
  obtain ⟨ns, hns⟩ := exists_decodeAll fun v hv => (h v hv).exists_decode
  refine ⟨ns, ?_, hns⟩
  show (Fields.ofList fs).entries.foldlM readRoot [] = .ok ns
  unfold childValues at hchildren
  split at hchildren
  next hnone =>
    cases hchildren
    rw [decodeAll] at hns
    cases hns
    exact foldlM_readRoot_of_none hnone []
  next hsome =>
    cases hchildren
    exact foldlM_readRoot (Fields.ofList fs).sorted hsome hns []
  next => cases hchildren

end Node
end MystNotebook
