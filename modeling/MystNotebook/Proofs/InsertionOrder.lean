import Mathlib.Data.Finset.Card
import MystNotebook.Proofs.CompactJson
import MystNotebook.Proofs.FirstOccurrences
import MystNotebook.Proofs.FreeNames

/-! Attachments as a map in the order of insertion. What a run of insertions leaves is described
by the run alone: the names in the order in which they come first, each with what comes last for
it. -/
namespace MystNotebook.Attachments
open Json

/-! One insertion. -/

theorem map_fst_put (name : String) (bundle : MimeBundle) (l : List (String × MimeBundle)) :
    (put name bundle l).map Prod.fst =
      if name ∈ l.map Prod.fst then l.map Prod.fst else l.map Prod.fst ++ [name] := by
  induction l with
  | nil => rfl
  | cons e l ih =>
    obtain ⟨n, b⟩ := e
    rw [put]
    split
    · next h => simp [h]
    · next h =>
      rw [List.map_cons, ih, List.map_cons]
      by_cases hmem : name ∈ l.map Prod.fst
      · rw [if_pos hmem, if_pos (List.mem_cons_of_mem n hmem)]
      · rw [if_neg hmem, if_neg fun hcons => hmem (List.mem_of_ne_of_mem (Ne.symm h) hcons),
          List.cons_append]

theorem names_insert (a : Attachments) (name : String) (bundle : MimeBundle) :
    (a.insert name bundle).names = if name ∈ a.names then a.names else a.names ++ [name] :=
  map_fst_put name bundle a.entries

theorem get?_insert (a : Attachments) (name n : String) (bundle : MimeBundle) :
    (a.insert name bundle).get? n = if n = name then some bundle else a.get? n := by
  split
  · next h => rw [h, get?_insert_self]
  · next h => rw [get?_insert_of_ne h]

/-! A run of insertions. -/

/-- What a run of insertions makes of no attachments. -/
def ofInsertions (insertions : List (String × MimeBundle)) : Attachments :=
  insertions.foldl (fun a e => a.insert e.1 e.2) .empty

theorem ofInsertions_concat (insertions : List (String × MimeBundle)) (e : String × MimeBundle) :
    ofInsertions (insertions ++ [e]) = (ofInsertions insertions).insert e.1 e.2 := by
  rw [ofInsertions, List.foldl_concat, ← ofInsertions]

theorem keepsFirst_eraseDups : KeepsFirst (fun _ : String => True) List.eraseDups where
  nil := rfl
  new _ hnew := by
    rw [List.mem_eraseDups] at hnew
    simp [List.eraseDups_append, List.removeAll, hnew, List.eraseDups_cons]
  old hold := by
    have hmem := not_not.mp fun hnew => hold ⟨trivial, hnew⟩
    rw [List.mem_eraseDups] at hmem
    simp [List.eraseDups_append, List.removeAll, hmem]

variable {insertions : List (String × MimeBundle)}

theorem names_ofInsertions (insertions : List (String × MimeBundle)) :
    (ofInsertions insertions).names = (insertions.map Prod.fst).eraseDups := by
  induction insertions using List.reverseRecOn with
  | nil => rfl
  | append_singleton insertions e ih =>
    rw [ofInsertions_concat, names_insert, List.map_append, List.map_singleton, ih]
    split
    · next h => rw [keepsFirst_eraseDups.old fun hnew => hnew.2 h]
    · next h => rw [keepsFirst_eraseDups.new trivial h]

theorem mem_names_ofInsertions {name : String} :
    name ∈ (ofInsertions insertions).names ↔ name ∈ insertions.map Prod.fst := by
  rw [names_ofInsertions, List.mem_eraseDups]

theorem nodup_names_ofInsertions (insertions : List (String × MimeBundle)) :
    (ofInsertions insertions).names.Nodup := by
  rw [names_ofInsertions]
  exact keepsFirst_eraseDups.nodup _

theorem get?_ofInsertions (insertions : List (String × MimeBundle)) (name : String) :
    (ofInsertions insertions).get? name = insertions.reverse.lookup name := by
  induction insertions using List.reverseRecOn with
  | nil => rfl
  | append_singleton insertions e ih =>
    obtain ⟨n, b⟩ := e
    rw [ofInsertions_concat, get?_insert, List.reverse_append, List.reverse_singleton,
      List.singleton_append, List.lookup_cons, ih]
    by_cases h : name = n
    · simp [h]
    · simp [h, beq_false_of_ne h]

theorem get?_ofInsertions_eq_some_iff {name : String} {bundle : MimeBundle} :
    (ofInsertions insertions).get? name = some bundle ↔ ∃ before after,
      insertions = before ++ (name, bundle) :: after ∧ name ∉ after.map Prod.fst := by
  have hnot (l : List (String × MimeBundle)) :
      (∀ e ∈ l, (name != e.1) = true) ↔ name ∉ l.reverse.map Prod.fst := by
    simp only [bne_iff_ne, List.map_reverse, List.mem_reverse, List.mem_map, not_exists, not_and]
    exact forall₂_congr fun e _ => ne_comm
  rw [get?_ofInsertions, List.lookup_eq_some_iff]
  constructor
  · rintro ⟨after, before, heq, hafter⟩
    refine ⟨before.reverse, after.reverse, ?_, (hnot after).mp hafter⟩
    rw [← List.reverse_reverse insertions, heq]
    simp
  · rintro ⟨before, after, rfl, hafter⟩
    refine ⟨after.reverse, before.reverse, by simp, (hnot _).mpr ?_⟩
    rwa [List.reverse_reverse]

/-! What is written. -/

def bundleJson (bundle : MimeBundle) : Value :=
  .object (bundle.map fun (mime, data) => (mime, .string data))

/-- Where no name is there twice, the entries are what is found under the names. -/
theorem entries_eq_of_nodup {a : Attachments} (h : a.names.Nodup) :
    a.entries = a.names.map fun name => (name, (a.get? name).getD []) := by
  have hfound : ∀ e ∈ a.entries, (e.1, (a.get? e.1).getD []) = e := fun e he => by
    rw [get?, lookup_of_mem h he, Option.getD_some]
  rw [names, List.map_map]
  calc a.entries = a.entries.map id := (List.map_id _).symm
    _ = a.entries.map _ := List.map_congr_left fun e he => (hfound e he).symm

theorem toJson_of_nodup {a : Attachments} (h : a.names.Nodup) :
    a.toJson = .object (a.names.map fun name => (name, bundleJson ((a.get? name).getD []))) := by
  have htoJson : a.toJson = .object (a.entries.map fun e => (e.1, bundleJson e.2)) := rfl
  rw [htoJson, entries_eq_of_nodup h, List.map_map]
  rfl

/-- The name of an attachment and what is found under it, as they stand in a JSON text. -/
def entryText (a : Attachments) (name : String) : List Char :=
  quote name ++ [':'] ++ (bundleJson ((a.get? name).getD [])).compact

theorem compact_toJson_of_nodup {a : Attachments} (h : a.names.Nodup) :
    a.toJson.compact = ['\x7b'] ++ [','].intercalate (a.names.map a.entryText) ++ ['\x7d'] := by
  rw [toJson_of_nodup h, Value.compact, Value.compactFields_eq_intercalate, List.map_map]
  rfl

/-- Attachments that are a map from the names in a run of insertions to what was inserted last. -/
structure IsMapOf (insertions : List (String × MimeBundle)) (a : Attachments) : Prop where
  /-- The names are those that were inserted. -/
  mem_names : ∀ name, name ∈ a.names ↔ name ∈ insertions.map Prod.fst
  /-- Each stands where its first insertion puts it. -/
  order : a.names.Pairwise fun m n =>
    (insertions.map Prod.fst).idxOf m < (insertions.map Prod.fst).idxOf n
  once : a.names.Nodup
  /-- The last insertion under a name is what is found. -/
  get?_eq_some : ∀ name bundle, a.get? name = some bundle ↔ ∃ before after,
    insertions = before ++ (name, bundle) :: after ∧ name ∉ after.map Prod.fst
  get?_eq_none : ∀ name, a.get? name = none ↔ name ∉ insertions.map Prod.fst
  contains : ∀ name, a.contains name = true ↔ name ∈ insertions.map Prod.fst
  size : a.size = (insertions.map Prod.fst).toFinset.card
  isEmpty : a.isEmpty = true ↔ insertions = []
  /-- The object has a field for each name, in their order. -/
  json : a.toJson = .object (a.names.map fun name => (name, bundleJson ((a.get? name).getD [])))
  text : a.toJson.compact = ['\x7b'] ++ [','].intercalate (a.names.map a.entryText) ++ ['\x7d']
  /-- No key is there twice in the text either. -/
  keys : (a.names.map quote).Nodup

/-- A run of insertions gives a map in the order of the first insertions, and so does its JSON. -/
theorem ofInsertions_isMapOf (insertions : List (String × MimeBundle)) :
    (ofInsertions insertions).IsMapOf insertions := by
  have honce := nodup_names_ofInsertions insertions
  have hmem (name : String) : name ∈ (ofInsertions insertions).names ↔
      name ∈ insertions.map Prod.fst := mem_names_ofInsertions
  constructor
  case mem_names => exact hmem
  case order =>
    rw [names_ofInsertions]
    exact keepsFirst_eraseDups.pairwise _
  case once => exact honce
  case get?_eq_some => exact fun name bundle => get?_ofInsertions_eq_some_iff
  case get?_eq_none =>
    intro name
    rw [← hmem, ← contains_iff, Attachments.contains, Option.not_isSome_iff_eq_none]
  case contains => exact fun name => contains_iff.trans (hmem name)
  case size =>
    have hnames : (ofInsertions insertions).names.toFinset =
        (insertions.map Prod.fst).toFinset := by
      ext name
      rw [List.mem_toFinset, List.mem_toFinset, hmem]
    rw [← hnames, List.toFinset_card_of_nodup honce, names, List.length_map, Attachments.size]
  case isEmpty =>
    have hnames : (ofInsertions insertions).isEmpty = true ↔
        (ofInsertions insertions).names = [] := by
      rw [Attachments.isEmpty, List.isEmpty_iff, names, List.map_eq_nil_iff]
    rw [hnames, List.eq_nil_iff_forall_not_mem]
    simp only [hmem, ← List.eq_nil_iff_forall_not_mem, List.map_eq_nil_iff]
  case json => exact toJson_of_nodup honce
  case text => exact compact_toJson_of_nodup honce
  case keys => exact honce.map quote_injective

example : (ofInsertions [("z", []), ("a", []), ("z", [("image/png", "Wg==")])]).entries =
    [("z", [("image/png", "Wg==")]), ("a", [])] := by
  decide

end MystNotebook.Attachments
