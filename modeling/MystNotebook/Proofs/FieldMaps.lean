import Mathlib.Data.List.Perm.Basic
import MystNotebook.Json.Fields

/-! Fields as functions on keys. What is looked up decides the fields, and of a list of entries the
last one with a key is what is looked up. -/
namespace MystNotebook.Json.Fields

/-! What is looked up. -/

theorem lookup_append (key : String) (l l' : List (String × Value)) :
    lookup key (l ++ l') = (lookup key l).or (lookup key l') := by
  induction l with
  | nil => rfl
  | cons e l ih =>
    rw [List.cons_append, lookup, lookup, ih]
    split <;> rfl

theorem get?_foldl_insert (key : String) (l : List (String × Value)) (f : Fields) :
    (l.foldl (fun f e => f.insert e.1 e.2) f).get? key =
      (lookup key l.reverse).or (f.get? key) := by
  induction l generalizing f with
  | nil => rfl
  | cons e l ih =>
    rw [List.foldl_cons, ih, List.reverse_cons, lookup_append, Option.or_assoc, lookup]
    congr 1
    split
    next h => rw [← h, get?_insert_self, Option.some_or]
    next h => rw [get?_insert_of_ne (Ne.symm h), lookup, Option.none_or]

theorem get?_ofList (key : String) (l : List (String × Value)) :
    (ofList l).get? key = lookup key l.reverse := by
  rw [ofList, get?_foldl_insert]
  exact Option.or_none

theorem get?_ofList_append (key : String) (l l' : List (String × Value)) :
    (ofList (l ++ l')).get? key = ((ofList l').get? key).or ((ofList l).get? key) := by
  simp only [get?_ofList, List.reverse_append, lookup_append]

theorem get?_ofList_singleton (key k : String) (v : Value) :
    (ofList [(k, v)]).get? key = if k = key then some v else none := by
  rw [get?_ofList]
  rfl

theorem get?_ofList_eq_none {key : String} {l : List (String × Value)}
    (h : key ∉ l.map Prod.fst) : (ofList l).get? key = none := by
  induction l with
  | nil => rfl
  | cons e l ih =>
    rw [List.map_cons, List.mem_cons, not_or] at h
    have hcons := get?_ofList_append key [e] l
    rw [List.singleton_append] at hcons
    rw [hcons, ih h.2, Option.none_or, get?_ofList_singleton, if_neg (Ne.symm h.1)]

/-! Fields that look alike are the same. -/

theorem lookup_eq_some_iff {l : List (String × Value)}
    (h : l.Pairwise fun a b => a.1 < b.1) {key : String} {value : Value} :
    lookup key l = some value ↔ (key, value) ∈ l := by
  induction l with
  | nil => simp [lookup]
  | cons e l ih =>
    obtain ⟨he, hl⟩ := List.pairwise_cons.mp h
    rw [lookup]
    split
    next heq =>
      subst heq
      have hnot : ∀ v, (e.1, v) ∉ l := fun v hv => String.lt_irrefl _ (he (e.1, v) hv)
      simp [Prod.ext_iff, hnot, eq_comm]
    next hne => simp [ih hl, Prod.ext_iff, Ne.symm hne]

theorem lookup_eq_none_of_forall_lt {l : List (String × Value)}
    (h : l.Pairwise fun a b => a.1 < b.1) {key : String} (hkey : ∀ e ∈ l, key < e.1) :
    lookup key l = none := by
  refine Option.eq_none_iff_forall_ne_some.mpr fun v hv => ?_
  exact String.lt_irrefl _ (hkey _ ((lookup_eq_some_iff h).mp hv))

theorem ext_get? {f g : Fields} (h : ∀ key, f.get? key = g.get? key) : f = g := by
  have hmem (e : String × Value) : e ∈ f.entries ↔ e ∈ g.entries := by
    rw [← lookup_eq_some_iff f.sorted, ← lookup_eq_some_iff g.sorted]
    exact iff_of_eq (congrArg (· = some e.2) (h e.1))
  have hnodup (f : Fields) : f.entries.Nodup := by
    refine f.sorted.imp fun {a b} hlt heq => ?_
    subst heq
    exact String.lt_irrefl a.1 hlt
  have hperm := (List.perm_ext_iff_of_nodup (hnodup f) (hnodup g)).mpr hmem
  refine ext (hperm.eq_of_pairwise (fun a b _ _ hab hba => ?_) f.sorted g.sorted)
  exact absurd hba (String.lt_asymm hab)

theorem lookup_reverse {l : List (String × Value)} (h : l.Pairwise fun a b => a.1 < b.1)
    (key : String) : lookup key l.reverse = lookup key l := by
  induction l with
  | nil => rfl
  | cons e l ih =>
    obtain ⟨he, hl⟩ := List.pairwise_cons.mp h
    rw [List.reverse_cons, lookup_append, ih hl]
    simp only [lookup]
    split
    next heq =>
      rw [lookup_eq_none_of_forall_lt hl (heq ▸ he), Option.none_or]
    next => exact Option.or_none

theorem erase_eq_self {f : Fields} {key : String} (h : f.get? key = none) : f.erase key = f := by
  apply ext_get?
  intro k
  by_cases hk : k = key
  · rw [hk, get?_erase_self, h]
  · exact get?_erase_of_ne hk f

@[simp] theorem ofList_entries (f : Fields) : ofList f.entries = f := by
  refine ext_get? fun key => ?_
  rw [get?_ofList, lookup_reverse f.sorted]
  rfl

end MystNotebook.Json.Fields
