import Mathlib.Data.List.Induction
import Mathlib.Data.List.Nodup

/-! Lists that keep what they are given where it stands first. They have each element once, in the
order of the first occurrences. What is found under a key is its first entry, the only one where no
key is there twice. -/
namespace MystNotebook

/-- What is kept of a list whose elements come one after the other: an element that satisfies the
condition and has not been kept yet. -/
structure KeepsFirst {α : Type} (p : α → Prop) (keep : List α → List α) : Prop where
  nil : keep [] = []
  new : ∀ {l : List α} {x : α}, p x → x ∉ keep l → keep (l ++ [x]) = keep l ++ [x]
  old : ∀ {l : List α} {x : α}, ¬ (p x ∧ x ∉ keep l) → keep (l ++ [x]) = keep l

namespace KeepsFirst

variable {α : Type} {p : α → Prop} {keep : List α → List α}

theorem mem_iff (h : KeepsFirst p keep) {x : α} {l : List α} : x ∈ keep l ↔ x ∈ l ∧ p x := by
  induction l using List.reverseRecOn with
  | nil => simp [h.nil]
  | append_singleton l last ih =>
    by_cases hlast : p last ∧ last ∉ keep l
    · rw [h.new hlast.1 hlast.2]
      simp only [List.mem_append, List.mem_singleton, ih]
      constructor
      · rintro (⟨hmem, hx⟩ | rfl)
        · exact ⟨.inl hmem, hx⟩
        · exact ⟨.inr rfl, hlast.1⟩
      · rintro ⟨hmem | rfl, hx⟩
        · exact .inl ⟨hmem, hx⟩
        · exact .inr rfl
    · rw [h.old hlast, List.mem_append, List.mem_singleton, ih]
      refine ⟨fun hx => ⟨.inl hx.1, hx.2⟩, ?_⟩
      rintro ⟨hmem | rfl, hx⟩
      · exact ⟨hmem, hx⟩
      · by_contra hnot
        exact hlast ⟨hx, fun hmem => hnot (ih.mp hmem)⟩

variable [BEq α] [LawfulBEq α]

theorem pairwise (h : KeepsFirst p keep) (l : List α) :
    (keep l).Pairwise fun a b => l.idxOf a < l.idxOf b := by
  induction l using List.reverseRecOn with
  | nil => simp [h.nil]
  | append_singleton l last ih =>
    -- the first occurrence of what was met does not change with what comes later
    have hold : (keep l).Pairwise fun a b => (l ++ [last]).idxOf a < (l ++ [last]).idxOf b := by
      refine ih.imp_of_mem fun ha hb hlt => ?_
      rwa [List.idxOf_append_of_mem (h.mem_iff.mp ha).1,
        List.idxOf_append_of_mem (h.mem_iff.mp hb).1]
    by_cases hlast : p last ∧ last ∉ keep l
    · have hnew : last ∉ l := fun hmem => hlast.2 (h.mem_iff.mpr ⟨hmem, hlast.1⟩)
      rw [h.new hlast.1 hlast.2]
      refine List.pairwise_append.mpr ⟨hold, List.pairwise_singleton _ _, fun a ha b hb => ?_⟩
      obtain rfl := List.mem_singleton.mp hb
      have hmem := (h.mem_iff.mp ha).1
      rw [List.idxOf_append_of_mem hmem, List.idxOf_append_of_notMem hnew]
      exact Nat.lt_add_right _ (List.idxOf_lt_length_of_mem hmem)
    · rwa [h.old hlast]

theorem nodup (h : KeepsFirst p keep) (l : List α) : (keep l).Nodup :=
  (h.pairwise l).imp fun hlt heq => by
    rw [heq] at hlt
    exact Nat.lt_irrefl _ hlt

end KeepsFirst

section

variable {α β : Type} [BEq α] [LawfulBEq α] {l : List (α × β)}

theorem mem_of_lookup {key : α} {value : β} (h : l.lookup key = some value) : (key, value) ∈ l := by
  obtain ⟨before, after, rfl, -⟩ := List.lookup_eq_some_iff.mp h
  exact List.mem_append_right before List.mem_cons_self

theorem lookup_of_mem (h : (l.map Prod.fst).Nodup) {e : α × β} (he : e ∈ l) :
    l.lookup e.1 = some e.2 := by
  have hsome : (l.lookup e.1).isSome = true :=
    List.lookup_isSome_iff.mpr ⟨e, he, beq_self_eq_true e.1⟩
  obtain ⟨value, hvalue⟩ := Option.isSome_iff_exists.mp hsome
  rw [hvalue, ← List.inj_on_of_nodup_map h (mem_of_lookup hvalue) he rfl]

end

end MystNotebook
