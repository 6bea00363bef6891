import MystNotebook.Json.Value

/-! The fields of an object as a map ordered by key. Looking a key up after an insertion gives what
was inserted and leaves every other key as it was. -/
namespace MystNotebook.Json

structure Fields where
  entries : List (String × Value)
  sorted : entries.Pairwise (fun a b => a.1 < b.1)

namespace Fields

instance : DecidableEq Fields := fun f g =>
  decidable_of_iff (f.entries = g.entries) (by cases f; cases g; simp)

@[ext] theorem ext {f g : Fields} (h : f.entries = g.entries) : f = g := by
  cases f; cases g; simp_all

def empty : Fields := ⟨[], .nil⟩

instance : Inhabited Fields := ⟨empty⟩

def isEmpty (f : Fields) : Bool := f.entries.isEmpty

def lookup (key : String) : List (String × Value) → Option Value
  | [] => none
  | (k, v) :: rest => if k = key then some v else lookup key rest

def get? (f : Fields) (key : String) : Option Value := lookup key f.entries

def place (key : String) (value : Value) : List (String × Value) → List (String × Value)
  | [] => [(key, value)]
  | (k, v) :: rest =>
    if key < k then (key, value) :: (k, v) :: rest
    else if key = k then (key, value) :: rest
    else (k, v) :: place key value rest

theorem mem_place {key : String} {value : Value} {l : List (String × Value)} {e : String × Value}
    (h : e ∈ place key value l) : e = (key, value) ∨ e ∈ l := by
  induction l with
  | nil => simpa [place] using h
  | cons a l ih =>
    simp only [place] at h
    split at h
    · simpa using h
    · split at h
      · rcases List.mem_cons.1 h with h | h
        · exact .inl h
        · exact .inr (List.mem_cons_of_mem _ h)
      · rcases List.mem_cons.1 h with h | h
        · exact .inr (h ▸ List.mem_cons_self)
        · exact (ih h).imp_right (List.mem_cons_of_mem _)

theorem place_sorted {key : String} {value : Value} {l : List (String × Value)}
    (h : l.Pairwise (fun a b => a.1 < b.1)) :
    (place key value l).Pairwise (fun a b => a.1 < b.1) := by
  induction l with
  | nil => simp [place]
  | cons a l ih =>
    obtain ⟨ha, hl⟩ := List.pairwise_cons.1 h
    simp only [place]
    split
    · rename_i hlt
      refine List.pairwise_cons.2 ⟨fun b hb => ?_, h⟩
      rcases List.mem_cons.1 hb with rfl | hb
      · exact hlt
      · exact String.lt_trans hlt (ha b hb)
    · rename_i hlt
      split
      · rename_i heq
        exact List.pairwise_cons.2 ⟨fun b hb => by simpa [heq] using ha b hb, hl⟩
      · rename_i hne
        refine List.pairwise_cons.2 ⟨fun b hb => ?_, ih hl⟩
        rcases mem_place hb with rfl | hb
        · rcases String.le_total key a.1 with hle | hle
          · exact absurd (String.le_antisymm hle (String.not_lt.1 hlt)) hne
          · exact String.not_le.1 fun hle' => hne (String.le_antisymm hle' hle)
        · exact ha b hb

/-- A key that is already there takes the new value. -/
def insert (f : Fields) (key : String) (value : Value) : Fields :=
  ⟨place key value f.entries, place_sorted f.sorted⟩

theorem lookup_place_self (key : String) (value : Value) (l : List (String × Value)) :
    lookup key (place key value l) = some value := by
  induction l with
  | nil => simp [place, lookup]
  | cons e l ih =>
    simp only [place]
    split
    · simp [lookup]
    · split
      · simp [lookup]
      · rename_i hne
        simp [lookup, Ne.symm hne, ih]

theorem lookup_place_of_ne {key k : String} (h : k ≠ key) (value : Value)
    (l : List (String × Value)) : lookup k (place key value l) = lookup k l := by
  induction l with
  | nil => simp [place, lookup, Ne.symm h]
  | cons e l ih =>
    simp only [place]
    split
    · simp [lookup, Ne.symm h]
    · split
      · rename_i heq
        simp [lookup, Ne.symm h, ← heq]
      · simp [lookup, ih]

theorem get?_insert_self (f : Fields) (key : String) (value : Value) :
    (f.insert key value).get? key = some value :=
  lookup_place_self ..

theorem get?_insert_of_ne {key k : String} (h : k ≠ key) (f : Fields) (value : Value) :
    (f.insert key value).get? k = f.get? k :=
  lookup_place_of_ne h ..

def erase (f : Fields) (key : String) : Fields :=
  ⟨f.entries.filter (·.1 ≠ key), f.sorted.filter _⟩

theorem lookup_filter_self (key : String) (l : List (String × Value)) :
    lookup key (l.filter (·.1 ≠ key)) = none := by
  induction l with
  | nil => rfl
  | cons e l ih =>
    by_cases h : e.1 = key
    · rw [List.filter_cons_of_neg (by simpa using h), ih]
    · rw [List.filter_cons_of_pos (by simpa using h), lookup, if_neg h, ih]

theorem lookup_filter_of_ne {key k : String} (h : k ≠ key) (l : List (String × Value)) :
    lookup k (l.filter (·.1 ≠ key)) = lookup k l := by
  induction l with
  | nil => rfl
  | cons e l ih =>
    by_cases he : e.1 = key
    · rw [List.filter_cons_of_neg (by simpa using he), ih, lookup, if_neg (he ▸ Ne.symm h)]
    · rw [List.filter_cons_of_pos (by simpa using he), lookup, lookup, ih]

theorem get?_erase_self (f : Fields) (key : String) : (f.erase key).get? key = none :=
  lookup_filter_self ..

theorem get?_erase_of_ne {key k : String} (h : k ≠ key) (f : Fields) :
    (f.erase key).get? k = f.get? k :=
  lookup_filter_of_ne h ..

/-- Of two entries with one key the later counts. -/
def ofList (l : List (String × Value)) : Fields :=
  l.foldl (fun f e => f.insert e.1 e.2) empty

end Fields

def Value.ofFields (f : Fields) : Value := .object f.entries

end MystNotebook.Json
