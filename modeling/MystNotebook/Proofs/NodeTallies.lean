import Mathlib.Data.List.Induction
import MystNotebook.CommonMark.Degrade

/-! How many nodes of a kind there are in a document, and the parts into which a rewriting sorts the
children: none of them is lost but the parts that give way to a later one. -/
namespace MystNotebook.CommonMark

/-- How many of the nodes and their descendants are accepted. -/
def tally (f : Node → Bool) (ns : List Node) : Nat := (Node.preorderAll ns).countP f

section
variable {f : Node → Bool}

@[simp] theorem tally_nil : tally f [] = 0 := rfl

@[simp] theorem tally_append (ms ns : List Node) :
    tally f (ms ++ ns) = tally f ms + tally f ns := by
  simp [tally, Node.preorderAll_eq_flatMap]

theorem tally_cons (n : Node) (ns : List Node) :
    tally f (n :: ns) = tally f [n] + tally f ns :=
  tally_append [n] ns

theorem tally_leaf (l : Leaf) : tally f [.leaf l] = (f (.leaf l)).toNat := by
  cases h : f (.leaf l) <;> simp [tally, Node.preorderAll, Node.preorder, h]

theorem tally_parent (p : Parent) (cs : List Node) :
    tally f [.parent p cs] = (f (.parent p cs)).toNat + tally f cs := by
  cases h : f (.parent p cs) <;>
    simp [tally, Node.preorderAll, Node.preorder, h, Nat.add_comm]

theorem tally_parent_of_false {p : Parent} {cs : List Node} (h : f (.parent p cs) = false) :
    tally f [.parent p cs] = tally f cs := by
  rw [tally_parent, h, Bool.toNat_false, Nat.zero_add]

theorem tally_map {g : Node → Node} (h : ∀ n, tally f [g n] = tally f [n]) (ns : List Node) :
    tally f (ns.map g) = tally f ns := by
  induction ns with
  | nil => rfl
  | cons n ns ih => rw [List.map_cons, tally_cons, tally_cons n, h, ih]

theorem tally_map_withoutTarget (h : ∀ n, f n.withoutTarget = f n) (ns : List Node) :
    tally f (ns.map Node.withoutTarget) = tally f ns := by
  refine tally_map (fun n => ?_) ns
  have hn := h n
  cases n with
  | leaf l =>
    rw [Node.withoutTarget] at hn ⊢
    rw [tally_leaf, tally_leaf, hn]
  | parent p cs =>
    rw [Node.withoutTarget] at hn ⊢
    rw [tally_parent, tally_parent, hn]

theorem tally_eq_add_filter (a : Node → Bool) (ns : List Node) :
    tally f ns = tally f (ns.filter a) + tally f (ns.filter fun n => !a n) := by
  induction ns with
  | nil => rfl
  | cons n ns ih =>
    rw [tally_cons, ih]
    cases ha : a n with
    | true =>
      rw [List.filter_cons_of_pos ha, List.filter_cons_of_neg (by simp [ha]),
        tally_cons n (ns.filter a)]
      omega
    | false =>
      rw [List.filter_cons_of_neg (by simp [ha]), List.filter_cons_of_pos (by simp [ha]),
        tally_cons n (ns.filter fun n => !a n)]
      omega

/-- The nodes fall into two disjoint kinds and the rest. -/
theorem tally_eq_add {a b : Node → Bool} (h : ∀ n, a n = true → b n = false) (ns : List Node) :
    tally f ns = tally f (ns.filter a) + tally f (ns.filter b) +
      tally f (ns.filter fun n => !a n && !b n) := by
  have hb : (ns.filter fun n => !a n).filter b = ns.filter b := by
    rw [List.filter_filter]
    refine List.filter_congr fun n _ => ?_
    cases ha : a n with
    | true => simp [h n ha]
    | false => simp
  rw [tally_eq_add_filter a, tally_eq_add_filter b (ns.filter fun n => !a n), hb,
    List.filter_filter, ← Nat.add_assoc]
  simp only [Bool.and_comm]

/-! Parts of a kind. -/

/-- The parts of a kind that give way to a later one. -/
def overwritten (p : Parent) (ns : List Node) : List Node :=
  (ns.filter fun n => (partOf p n).isSome).dropLast

variable {p : Parent}

theorem tally_lastOf (hp : ∀ cs, f (.parent p cs) = false) (ns : List Node) :
    tally f (ns.filter fun n => (partOf p n).isSome) =
      tally f ((lastOf (partOf p) ns).getD []) + tally f (overwritten p ns) := by
  induction ns using List.reverseRecOn with
  | nil => rfl
  | append_singleton ns n ih =>
    unfold overwritten lastOf at ih ⊢
    rw [List.filter_append, List.reverse_append, List.reverse_singleton, List.singleton_append,
      List.findSome?_cons]
    cases hn : partOf p n with
    | none => simpa [hn] using ih
    | some cs =>
      obtain rfl := partOf_eq_some.mp hn
      simp [hn, Nat.add_comm, tally_parent_of_false (hp cs)]

theorem tally_parts (hp : ∀ cs, f (.parent p cs) = false) (ns : List Node) :
    tally f (ns.filterMap (partOf p)).flatten =
      tally f (ns.filter fun n => (partOf p n).isSome) := by
  induction ns with
  | nil => rfl
  | cons n ns ih =>
    cases hn : partOf p n with
    | none => simpa [hn] using ih
    | some cs =>
      obtain rfl := partOf_eq_some.mp hn
      rw [List.filterMap_cons_some hn, List.flatten_cons, List.filter_cons_of_pos (by simp [hn]),
        tally_append, tally_cons, tally_parent_of_false (hp cs), ih]

/-! How a rewriting sorts the children. -/

/-- The children of a container are captions, legends and the rest. -/
theorem tally_containerParts (hcaption : ∀ cs, f (.parent .caption cs) = false)
    (hlegend : ∀ cs, f (.parent .legend cs) = false) (cs : List Node) :
    tally f cs = tally f ((lastOf caption? cs).getD []) + tally f (overwritten .caption cs) +
      tally f (cs.filterMap legend?).flatten +
      tally f (cs.filter fun n => (caption? n).isNone && (legend? n).isNone) := by
  have hdisjoint (n : Node) (h : (partOf .caption n).isSome = true) :
      (partOf .legend n).isSome = false := by
    obtain ⟨ds, hds⟩ := Option.isSome_iff_exists.mp h
    obtain rfl := partOf_eq_some.mp hds
    rfl
  rw [tally_eq_add hdisjoint, tally_lastOf hcaption, ← tally_parts hlegend]
  simp [caption?, legend?]

/-- The children of a card are titles, margins and the rest. -/
theorem tally_cardParts (htitle : ∀ cs, f (.parent .cardTitle cs) = false) (cs : List Node) :
    tally f cs = tally f ((lastOf cardTitle? cs).getD []) +
      tally f (cs.filter isCardMargin ++ overwritten .cardTitle cs) +
      tally f (cs.filter fun n => (cardTitle? n).isNone && !isCardMargin n) := by
  have hdisjoint (n : Node) (h : (partOf .cardTitle n).isSome = true) :
      isCardMargin n = false := by
    obtain ⟨ds, hds⟩ := Option.isSome_iff_exists.mp h
    obtain rfl := partOf_eq_some.mp hds
    rfl
  rw [tally_eq_add hdisjoint, tally_lastOf htitle, tally_append]
  simp only [cardTitle?, Option.not_isSome]
  omega

theorem tally_detailsParts (hsummary : ∀ cs, f (.parent .summary cs) = false) (cs : List Node) :
    tally f cs = tally f ((lastOf summary? cs).getD []) + tally f (overwritten .summary cs) +
      tally f (cs.filter fun n => (summary? n).isNone) := by
  rw [tally_eq_add_filter fun n => (partOf .summary n).isSome, tally_lastOf hsummary]
  simp [summary?]

theorem tally_unwrapped (h : ∀ cs, f (.parent .paragraph cs) = false) (n : Node) :
    tally f (unwrapped n) = tally f [n] := by
  unfold unwrapped
  split
  next cs => rw [tally_parent_of_false (h cs)]
  next => rfl

/-- A title that is left out because it is empty has no nodes. -/
theorem tally_bind_nonEmpty (title : Option (List Node)) :
    tally f ((title.bind nonEmpty).getD []) = tally f (title.getD []) := by
  cases title with
  | none => rfl
  | some ns =>
    rw [Option.bind_some, nonEmpty]
    split
    next hempty => rw [List.isEmpty_iff.mp hempty]; rfl
    next => rfl

end

end MystNotebook.CommonMark
