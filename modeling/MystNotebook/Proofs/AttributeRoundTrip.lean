import MystNotebook.Document.Decode
import MystNotebook.Document.Encode
import MystNotebook.Proofs.FieldMaps

/-! Attributes read back. Each kind of node reads the fields that it writes, and no kind looks at
the type or the children for them. -/
namespace MystNotebook
open Json

/-! The fields besides the type and the children. -/

namespace Json.Fields

/-- The fields of a node that are neither its type nor its children. -/
def attributes (f : Fields) : Fields := (f.erase "type").erase "children"

theorem get?_attributes_type (f : Fields) : f.attributes.get? "type" = none := by
  rw [attributes, get?_erase_of_ne (by decide), get?_erase_self]

theorem get?_attributes_children (f : Fields) : f.attributes.get? "children" = none :=
  get?_erase_self ..

theorem get?_attributes_of_ne {key : String} (htype : key ≠ "type") (hchildren : key ≠ "children")
    (f : Fields) : f.attributes.get? key = f.get? key := by
  rw [attributes, get?_erase_of_ne hchildren, get?_erase_of_ne htype]

theorem attributes_eq_self {f : Fields} (htype : f.get? "type" = none)
    (hchildren : f.get? "children" = none) : f.attributes = f := by
  refine ext_get? fun key => ?_
  by_cases ht : key = "type"
  · rw [ht, get?_attributes_type, htype]
  · by_cases hc : key = "children"
    · rw [hc, get?_attributes_children, hchildren]
    · exact get?_attributes_of_ne ht hc f

theorem attributes_attributes (f : Fields) : f.attributes.attributes = f.attributes :=
  attributes_eq_self f.get?_attributes_type f.get?_attributes_children

/-- The type and the children that are written behind the attributes are not among these. -/
theorem attributes_ofList_append {l rest : List (String × Value)}
    (h : ∀ e ∈ rest, e.1 = "type" ∨ e.1 = "children") :
    (ofList (l ++ rest)).attributes = (ofList l).attributes := by
  refine ext_get? fun key => ?_
  by_cases ht : key = "type"
  · rw [ht, get?_attributes_type, get?_attributes_type]
  by_cases hc : key = "children"
  · rw [hc, get?_attributes_children, get?_attributes_children]
  · have hrest : key ∉ rest.map Prod.fst := by
      intro hmem
      obtain ⟨e, he, rfl⟩ := List.mem_map.mp hmem
      exact (h e he).elim ht hc
    rw [get?_attributes_of_ne ht hc, get?_attributes_of_ne ht hc, get?_ofList_append,
      get?_ofList_eq_none hrest, Option.none_or]

end Json.Fields

namespace FieldReader

theorem field_attributes {α : Type} (read : FieldReader α) (default : α) (f : Fields)
    {key : String} (htype : key ≠ "type") (hchildren : key ≠ "children") :
    field read default f.attributes key = field read default f key := by
  rw [field, field, Fields.get?_attributes_of_ne htype hchildren]

theorem optional_attributes {α : Type} (read : FieldReader α) (f : Fields) {key : String}
    (htype : key ≠ "type") (hchildren : key ≠ "children") :
    FieldReader.optional read f.attributes key = FieldReader.optional read f key :=
  field_attributes _ _ f htype hchildren

theorem targetOf_attributes (f : Fields) : targetOf f.attributes = targetOf f := by
  simp only [targetOf, optionalText, optional_attributes, ne_eq, String.reduceEq, not_false_eq_true]

end FieldReader

open FieldReader

theorem Leaf.decode_attributes (typeName : String) (f : Fields) :
    Leaf.decode typeName f.attributes = Leaf.decode typeName f := by
  simp only [Leaf.decode, Code.decode, Image.decode, Math.decode, optionalText, field_attributes,
    optional_attributes, targetOf_attributes, ne_eq, String.reduceEq, not_false_eq_true]

theorem Parent.decode_attributes (typeName : String) (f : Fields) :
    Parent.decode typeName f.attributes = Parent.decode typeName f := by
  unfold Parent.decode
  simp only [optionalText, field_attributes, optional_attributes, targetOf_attributes, ne_eq,
    String.reduceEq, not_false_eq_true]

/-! One field, written and read. -/

/-- Every value is read back, and none is written as null. -/
structure FieldReader.Reads {α : Type} (read : FieldReader α) (write : α → Value) : Prop where
  read_write : ∀ x, read (write x) = some x
  ne_null : ∀ x, write x ≠ .null

namespace FieldReader

theorem nullable_of_ne {α : Type} (read : FieldReader α) {v : Value} (h : v ≠ .null) :
    nullable read v = (read v).map some := by
  cases v with
  | null => exact absurd rfl h
  | _ => rfl

theorem mapM_map {α : Type} {read : FieldReader α} {write : α → Value}
    (h : ∀ x, read (write x) = some x) (xs : List α) : (xs.map write).mapM read = some xs := by
  induction xs with
  | nil => rfl
  | cons x xs ih => simp [h, ih]

theorem reads_string : Reads string .string := ⟨fun _ => rfl, by simp⟩

theorem reads_flag : Reads flag .bool := ⟨fun _ => rfl, by simp⟩

theorem byte_toNat (n : UInt8) : byte (.number (.int n.toNat)) = some n := by
  have h : 0 ≤ (n.toNat : Int) ∧ (n.toNat : Int) < UInt8.size := by
    have := n.toNat_lt
    simp only [UInt8.size]
    omega
  simp only [byte, if_pos h, Int.toNat_natCast, UInt8.ofNat_toNat]

theorem reads_word : Reads word FieldWriter.word := by
  refine ⟨fun n => ?_, by simp [FieldWriter.word]⟩
  have h : 0 ≤ (n.toNat : Int) ∧ (n.toNat : Int) < UInt32.size := by
    have := n.toNat_lt
    simp only [UInt32.size]
    omega
  simp only [word, FieldWriter.word, if_pos h, Int.toNat_natCast, UInt32.ofNat_toNat]

theorem reads_words : Reads (listOf word) FieldWriter.words :=
  ⟨mapM_map reads_word.read_write, by simp [FieldWriter.words]⟩

theorem reads_map : Reads map .ofFields :=
  ⟨fun f => by simp [map, Value.ofFields], by simp [Value.ofFields]⟩

theorem nullable_align (a : Option Align) :
    nullable align (FieldWriter.align a) = some a := by
  cases a with
  | none => rfl
  | some a => cases a <;> rfl

theorem field_eq_elim {α : Type} (read : FieldReader α) (default : α) (f : Fields)
    (key : String) : field read default f key = (f.get? key).elim (some default) read := by
  unfold field
  split
  next h => rw [h, Option.elim_none]
  next h => rw [h, Option.elim_some]

theorem Reads.elim_map {α : Type} {read : FieldReader α} {write : α → Value}
    (h : Reads read write) (x : Option α) :
    (x.map write).elim (some none) (nullable read) = some x := by
  cases x with
  | none => rfl
  | some x =>
    rw [Option.map_some, Option.elim_some, nullable_of_ne read (h.ne_null x), h.read_write,
      Option.map_some]

end FieldReader

theorem FieldWriter.get?_ofList_optional {α : Type} (key k : String) (write : α → Value)
    (x : Option α) :
    (Fields.ofList (FieldWriter.optional k write x)).get? key =
      if k = key then x.map write else none := by
  cases x with
  | none => simp [FieldWriter.optional, Fields.get?_ofList, Fields.lookup]
  | some x =>
    simp only [FieldWriter.optional, Option.map_some, Option.toList_some,
      Fields.get?_ofList_singleton]

/-! All of the attributes. Each key is looked up among the fields of its kind, where it stands once
or, if it is optional and missing, not at all. -/

theorem Leaf.decode_fields (l : Leaf) : Leaf.decode l.typeName (.ofList l.fields) = some l := by
  cases l <;>
    simp only [Leaf.typeName, Leaf.decode, Leaf.fields, Code.decode, Code.fields, Image.decode,
      Image.fields, Math.decode, Math.fields, field_eq_elim, FieldReader.optional,
      FieldReader.optionalText, targetOf, FieldWriter.optionalText, FieldWriter.target,
      Fields.get?_ofList_append, FieldWriter.get?_ofList_optional, Fields.get?_ofList_singleton,
      String.reduceEq, if_true, if_false, Option.none_or, Option.or_none, Option.elim_some,
      reads_string.elim_map, reads_flag.elim_map, reads_word.elim_map, reads_words.elim_map,
      reads_string.read_write, Option.bind_eq_bind, Option.bind_some, Option.map_some]

theorem Parent.decode_fields {p : Parent} (h : p.isOther = false) :
    Parent.decode p.typeName (.ofList p.fields) = some p := by
  cases p with
  | other => cases h
  | _ =>
    unfold Parent.decode
    simp only [Parent.typeName, Parent.fields, field_eq_elim, FieldReader.optional,
      FieldReader.optionalText, targetOf, FieldWriter.optionalText, FieldWriter.target,
      Fields.get?_ofList_append, FieldWriter.get?_ofList_optional, Fields.get?_ofList_singleton,
      String.reduceEq, if_true, if_false, Option.none_or, Option.or_none, Option.elim_some,
      reads_string.elim_map, reads_flag.elim_map, reads_word.elim_map, reads_words.elim_map,
      reads_map.elim_map, reads_string.read_write, reads_flag.read_write, byte_toNat, listOf,
      mapM_map nullable_align, Option.bind_eq_bind, Option.bind_some]

end MystNotebook
