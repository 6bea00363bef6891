import MystNotebook.Proofs.AttributeRoundTrip

/-! Documents written and read again. A node of kind `other` is read as such again only if its kind
still refuses its fields, which holds of every node that has been read. -/
namespace MystNotebook
open Json

/-- A node of kind `other` holds neither type nor children among its fields, and these do not make
it a node of a modelled kind. -/
def Parent.Readable : Parent → Prop
  | .other name fields =>
    fields.attributes = fields ∧ Leaf.decode name fields = none ∧ Parent.decode name fields = none
  | _ => True

inductive Node.Readable : Node → Prop
  | leaf (l : Leaf) : Readable (.leaf l)
  | parent {p : Parent} {cs : List Node} : p.Readable → (∀ c ∈ cs, Readable c) →
    Readable (.parent p cs)

theorem Parent.readable_of_isOther {p : Parent} (h : p.isOther = false) : p.Readable := by
  cases p with
  | other => cases h
  | _ => trivial

theorem Parent.isOther_of_decode {typeName : String} {f : Fields} {p : Parent}
    (h : Parent.decode typeName f = some p) : p.isOther = false := by
  cases p with
  | other =>
    unfold Parent.decode at h
    split at h <;> simp [Option.bind_eq_some_iff] at h
  | _ => rfl

theorem Leaf.decode_parentType {p : Parent} (h : p.isOther = false) (f : Fields) :
    Leaf.decode p.typeName f = none := by
  cases p with
  | other => cases h
  | _ => rfl

/-! Records. -/

namespace Json.Value

theorem exists_of_bind_eq_ok {ε α β : Type} {x : Except ε α} {f : α → Except ε β} {r : β}
    (h : x >>= f = .ok r) : ∃ a, x = .ok a ∧ f a = .ok r := by
  cases x with
  | error => cases h
  | ok a => exact ⟨a, rfl, h⟩

section
variable {α : Type} {P : α → Prop} {readField : α → String → Value → Except DecodeError α}

theorem foldlM_invariant (hstep : ∀ r key v r', P r → readField r key v = .ok r' → P r')
    {entries : List (String × Value)} {start r : α} (hstart : P start)
    (h : entries.foldlM (fun r e => readField r e.1 e.2) start = .ok r) : P r := by
  induction entries generalizing start with
  | nil =>
    cases h
    exact hstart
  | cons e entries ih =>
    rw [List.foldlM_cons] at h
    obtain ⟨r', he, h⟩ := exists_of_bind_eq_ok h
    exact ih (hstep start e.1 e.2 r' hstart he) h

/-- What holds at the start and is kept by every field holds of the record. -/
theorem record_invariant (hstep : ∀ r key v r', P r → readField r key v = .ok r' → P r')
    {name : String} {names : List String} {start r : α} (hstart : P start) {v : Value}
    (h : v.record name names start readField = .ok r) : P r := by
  unfold record at h
  split at h
  next fs => exact foldlM_invariant hstep hstart h
  next vs =>
    obtain ⟨r', hr, h⟩ := exists_of_bind_eq_ok h
    split at h
    next => cases h
    next =>
      cases h
      exact foldlM_invariant hstep hstart hr
  next => cases h

end

end Json.Value

namespace Node

/-! What is read of the children. -/

theorem childrenField_eq (fs : List (String × Value)) :
    childrenField fs = (Fields.lookup "children" fs.reverse).map childrenOf := by
  induction fs with
  | nil => rfl
  | cons e fs ih =>
    rw [childrenField, ih, List.reverse_cons, Fields.lookup_append, Option.map_or,
      Fields.lookup]
    congr 1
    split <;> rfl

/-- A node is read from the last entry with each key. -/
theorem decode_object (fs : List (String × Value)) :
    decode (.object fs) = ofFields (.ofList fs)
      ((((Fields.ofList fs).get? "children").map childrenOf).getD (some [])) := by
  rw [decode, childrenField_eq, Fields.get?_ofList]

/-! Written nodes. -/

theorem ofFields_eq_or {f : Fields} {name : String} (h : f.get? "type" = some (.string name))
    (children : Option (List Node)) :
    ofFields f children = (decodeModelled name f children).or (decodeOther name f children) := by
  simp only [ofFields, h, Option.bind_eq_bind, Option.bind_some, modelledType]
  cases decodeModelled name f children <;> rfl

theorem decode_encode_leaf (l : Leaf) : decode (encode (.leaf l)) = some (.leaf l) := by
  have htype : (Fields.ofList (l.fields ++ [("type", .string l.typeName)])).get? "type" =
      some (.string l.typeName) := by
    rw [Fields.get?_ofList_append, Fields.get?_ofList_singleton, if_pos rfl, Option.some_or]
  have hleaf : Leaf.decode l.typeName (.ofList (l.fields ++ [("type", .string l.typeName)])) =
      some l := by
    rw [← Leaf.decode_attributes, Fields.attributes_ofList_append (by simp),
      Leaf.decode_attributes, l.decode_fields]
  rw [encode, Value.ofFields, decode_object, Fields.ofList_entries, ofFields_eq_or htype,
    decodeModelled, hleaf, Option.some_or]

/-- The field of the children of a written parent, if it has one. -/
def childrenEntry (p : Parent) (cs : List Node) : List (String × Value) :=
  if p.isOther && cs.isEmpty then [] else [("children", .array (encodeAll cs))]

/-- The fields of a written parent. -/
def parentFields (p : Parent) (cs : List Node) : Fields :=
  .ofList (p.fields ++ (childrenEntry p cs ++ [("type", .string p.typeName)]))

theorem encode_parent (p : Parent) (cs : List Node) :
    encode (.parent p cs) = .ofFields (parentFields p cs) := by
  rw [encode, parentFields, childrenEntry, List.append_assoc]

section
variable (p : Parent) (cs : List Node)

theorem get?_parentFields_type :
    (parentFields p cs).get? "type" = some (.string p.typeName) := by
  rw [parentFields, Fields.get?_ofList_append, Fields.get?_ofList_append,
    Fields.get?_ofList_singleton, if_pos rfl, Option.some_or, Option.some_or]

theorem attributes_parentFields :
    (parentFields p cs).attributes = (Fields.ofList p.fields).attributes := by
  refine Fields.attributes_ofList_append ?_
  unfold childrenEntry
  split <;> simp

end

theorem children_parentFields {p : Parent} (hp : p.Readable) {cs : List Node}
    (hcs : decodeAll (encodeAll cs) = some cs) :
    (((parentFields p cs).get? "children").map childrenOf).getD (some []) = some cs := by
  have htype : (Fields.ofList [("type", .string p.typeName)]).get? "children" = none := by
    rw [Fields.get?_ofList_singleton, if_neg (by decide)]
  rw [parentFields, Fields.get?_ofList_append, Fields.get?_ofList_append, htype, Option.none_or,
    childrenEntry]
  split
  next hempty =>
    obtain ⟨hother, hnil⟩ := Bool.and_eq_true_iff.mp hempty
    obtain rfl := List.isEmpty_iff.mp hnil
    cases p with
    | other name fields =>
      rw [Parent.fields, Fields.ofList_entries, ← hp.1, Fields.get?_attributes_children]
      rfl
    | _ => cases hother
  next =>
    rw [Fields.get?_ofList_singleton, if_pos rfl, Option.some_or, Option.map_some,
      Option.getD_some, childrenOf, hcs]

theorem decode_encode_parent {p : Parent} (hp : p.Readable) {cs : List Node}
    (hcs : decodeAll (encodeAll cs) = some cs) :
    decode (encode (.parent p cs)) = some (.parent p cs) := by
  rw [encode_parent, Value.ofFields, decode_object, Fields.ofList_entries,
    children_parentFields hp hcs, ofFields_eq_or (get?_parentFields_type p cs), decodeModelled,
    ← Leaf.decode_attributes, ← Parent.decode_attributes, attributes_parentFields,
    Leaf.decode_attributes, Parent.decode_attributes]
  cases hother : p.isOther with
  | false =>
    rw [Leaf.decode_parentType hother, Parent.decode_fields hother]
    rfl
  | true =>
    cases p with
    | other name fields =>
      obtain ⟨hattributes, hleaf, hparent⟩ := hp
      rw [decodeOther, ← Fields.attributes, attributes_parentFields]
      simp only [Parent.fields, Parent.typeName, Fields.ofList_entries, hattributes, hleaf, hparent]
      rfl
    | _ => cases hother

theorem decodeAll_encodeAll {ns : List Node} (h : ∀ n ∈ ns, decode n.encode = some n) :
    decodeAll (encodeAll ns) = some ns := by
  induction ns with
  | nil => rfl
  | cons n ns ih =>
    rw [List.forall_mem_cons] at h
    rw [encodeAll, decodeAll, h.1, ih h.2]
    rfl

theorem Readable.decode_encode {n : Node} (h : n.Readable) : decode n.encode = some n := by
  induction h with
  | leaf l => exact decode_encode_leaf l
  | parent hp _ ih => exact decode_encode_parent hp (decodeAll_encodeAll ih)

/-! Nodes that have been read. -/

theorem readable_of_decodeModelled {name : String} {f : Fields} {children : Option (List Node)}
    {n : Node} (h : decodeModelled name f children = some n)
    (hchildren : ∀ cs ∈ children, ∀ c ∈ cs, c.Readable) : n.Readable := by
  unfold decodeModelled at h
  split at h
  next l _ =>
    cases h
    exact .leaf l
  next =>
    obtain ⟨p, hp, h⟩ := Option.bind_eq_some_iff.mp h
    obtain ⟨cs, hcs, h⟩ := Option.bind_eq_some_iff.mp h
    cases h
    exact .parent (Parent.readable_of_isOther (Parent.isOther_of_decode hp)) (hchildren cs hcs)

/-- What no modelled kind takes is kept as it is, so none will take it again. -/
theorem readable_of_decodeOther {name : String} {f : Fields} {children : Option (List Node)}
    {n : Node} (h : decodeOther name f children = some n)
    (hmodelled : decodeModelled name f children = none)
    (hchildren : ∀ cs ∈ children, ∀ c ∈ cs, c.Readable) : n.Readable := by
  obtain ⟨cs, hcs, h⟩ := Option.bind_eq_some_iff.mp h
  cases h
  obtain rfl : children = some cs := hcs
  unfold decodeModelled at hmodelled
  split at hmodelled
  next => cases hmodelled
  next hleaf =>
    have hparent : Parent.decode name f = none := by
      cases hp : Parent.decode name f with
      | none => rfl
      | some p =>
        rw [hp] at hmodelled
        cases hmodelled
    refine .parent ⟨f.attributes_attributes, ?_, ?_⟩ (hchildren cs rfl)
    · exact (Leaf.decode_attributes name f).trans hleaf
    · exact (Parent.decode_attributes name f).trans hparent

theorem readable_of_ofFields {f : Fields} {children : Option (List Node)} {n : Node}
    (h : ofFields f children = some n) (hchildren : ∀ cs ∈ children, ∀ c ∈ cs, c.Readable) :
    n.Readable := by
  obtain ⟨tag, -, h⟩ := Option.bind_eq_some_iff.mp h
  split at h
  next m hm =>
    cases h
    obtain ⟨name, -, hname⟩ := Option.bind_eq_some_iff.mp hm
    exact readable_of_decodeModelled hname hchildren
  next hm =>
    split at h
    next name => exact readable_of_decodeOther h hm hchildren
    next => cases h

theorem readable_of_ofItems {name : String} {items : List Value} {children : Option (List Node)}
    {n : Node} (h : ofItems name items children = some n)
    (hchildren : ∀ cs ∈ children, ∀ c ∈ cs, c.Readable) : n.Readable := by
  obtain ⟨-, -, h⟩ := Option.bind_eq_some_iff.mp h
  exact readable_of_decodeModelled h hchildren

mutual

theorem readable_of_decode : (v : Value) → ∀ n ∈ decode v, n.Readable
  | .object fs, n, h => readable_of_ofFields h fun cs hcs => by
    cases hfield : childrenField fs with
    | none =>
      rw [hfield] at hcs
      cases hcs
      simp
    | some children =>
      rw [hfield] at hcs
      exact readable_of_childrenField fs children hfield cs hcs
  | .array [], n, h => by cases h
  | .array (tag :: items), n, h => by
    obtain ⟨name, -, h⟩ := Option.bind_eq_some_iff.mp h
    exact readable_of_ofItems h (readable_of_childrenAt _ items)
  | .null, n, h | .bool _, n, h | .number _, n, h | .string _, n, h => by cases h

theorem readable_of_decodeAll : (vs : List Value) → ∀ ns ∈ decodeAll vs, ∀ n ∈ ns, n.Readable
  | [], ns, h => by
    cases h
    simp
  | v :: vs, ns, h => by
    obtain ⟨m, hm, h⟩ := Option.bind_eq_some_iff.mp h
    obtain ⟨ms, hms, h⟩ := Option.bind_eq_some_iff.mp h
    cases h
    exact List.forall_mem_cons.mpr ⟨readable_of_decode v m hm, readable_of_decodeAll vs ms hms⟩

theorem readable_of_childrenOf : (v : Value) → ∀ cs ∈ childrenOf v, ∀ c ∈ cs, c.Readable
  | .array vs, cs, h => readable_of_decodeAll vs cs h
  | .null, cs, h | .bool _, cs, h | .number _, cs, h | .string _, cs, h | .object _, cs, h => by
    cases h

theorem readable_of_childrenField : (fs : List (String × Value)) →
    ∀ children ∈ childrenField fs, ∀ cs ∈ children, ∀ c ∈ cs, c.Readable
  | [], children, h => by cases h
  | (k, v) :: rest, children, h => by
    rw [childrenField] at h
    rcases Option.or_eq_some_iff.mp h with h | ⟨-, h⟩
    · exact readable_of_childrenField rest children h
    · split at h
      next =>
        cases h
        exact readable_of_childrenOf v
      next => cases h

theorem readable_of_childrenAt : (place : Nat) → (items : List Value) →
    ∀ cs ∈ childrenAt place items, ∀ c ∈ cs, c.Readable
  | _, [], cs, h => by
    cases h
    simp
  | 0, v :: _, cs, h => readable_of_childrenOf v cs h
  | place + 1, _ :: rest, cs, h => readable_of_childrenAt place rest cs h

end

/-- The nodes that can be read are those that are read again from what they are written as. -/
theorem exists_decode_iff {n : Node} : (∃ v, decode v = some n) ↔ n.Readable :=
  ⟨fun ⟨v, hv⟩ => readable_of_decode v n hv, fun h => ⟨n.encode, h.decode_encode⟩⟩

theorem readable_of_decodeDocument {v : Value} {ns : List Node} (h : decodeDocument v = .ok ns) :
    ∀ n ∈ ns, n.Readable := by
  refine Value.record_invariant (P := fun ns => ∀ n ∈ ns, n.Readable)
    (fun cs key v cs' hcs h => ?_) (by simp) h
  split at h
  next =>
    obtain ⟨items, -, h⟩ := Value.exists_of_bind_eq_ok h
    split at h
    next ns hns =>
      cases h
      exact readable_of_decodeAll items _ hns
    next => cases h
  next =>
    cases h
    exact hcs

theorem decodeDocument_encodeDocument {ns : List Node} (h : ∀ n ∈ ns, n.Readable) :
    decodeDocument (encodeDocument ns) = .ok ns := by
  have hns := decodeAll_encodeAll fun n hn => (h n hn).decode_encode
  rw [decodeDocument, encodeDocument, Value.record]
  simp only [Fields.ofList, Fields.insert, Fields.empty, Fields.place, List.foldl_cons,
    List.foldl_nil, List.foldlM_cons, List.foldlM_nil, if_true, Value.items]
  simp [hns, bind, Except.bind, pure, Except.pure]

/-- A node, or a document, that has been read from any value is read again from what it is written
as. -/
theorem decode_encode_of_decode :
    (∀ (v : Value) (n : Node), decode v = some n → decode n.encode = some n) ∧
      ∀ (v : Value) (ns : List Node), decodeDocument v = .ok ns →
        decodeDocument (encodeDocument ns) = .ok ns :=
  ⟨fun v n h => (readable_of_decode v n h).decode_encode,
    fun _ _ h => decodeDocument_encodeDocument (readable_of_decodeDocument h)⟩

/-- A list whose `ordered` is null, with an image whose url is a number, a heading that is an array
and a paragraph that is named by a number. -/
def malformedList : Value :=
  .object
    [("type", .string "list"), ("ordered", .null),
      ("children", .array
        [.object [("url", .number (.int 3)), ("children", .array []), ("type", .string "image")],
          .array [.string "heading", .number (.int 2)],
          .object [("type", .number (.int 2))]])]

/-- What is read of it. -/
def keptList : Node :=
  .parent (.other "list" ⟨[("ordered", .null)], by simp⟩)
    [.parent (.other "image" ⟨[("url", .number (.int 3))], by simp⟩) [],
      .parent (.heading 2 {}) [], .paragraph []]

theorem decode_encode_keptList :
    (decode malformedList = some keptList ∧ decode keptList.encode = some keptList) ∧
      decodeDocument (.array [.array [malformedList]]) = .ok [keptList] ∧
      decodeDocument (encodeDocument [keptList]) = .ok [keptList] := by
  have hnode : decode malformedList = some keptList := rfl
  have hdocument : decodeDocument (.array [.array [malformedList]]) = .ok [keptList] := rfl
  exact ⟨⟨hnode, decode_encode_of_decode.1 _ _ hnode⟩,
    hdocument, decode_encode_of_decode.2 _ _ hdocument⟩

end Node
end MystNotebook
