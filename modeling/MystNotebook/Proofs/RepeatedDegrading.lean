import MystNotebook.Proofs.FieldMaps
import MystNotebook.Proofs.NormalForm

/-! Degrading as a projection: the documents that it leaves as they are are those in normal form,
and what it makes is in normal form, so a second run changes nothing, whatever its options are. -/
namespace MystNotebook

theorem Parent.withoutTarget_eq_self {p : Parent} (h : p.isPlain = true) : p.withoutTarget = p := by
  cases p with
  | block | heading =>
    simp only [isPlain, beq_iff_eq] at h
    simp only [withoutTarget, h]
  | other name fields =>
    simp only [isPlain, List.all_cons, List.all_nil, Bool.and_true, Bool.and_eq_true,
      Option.isNone_iff_eq_none] at h
    obtain ⟨hidentifier, hlabel, hhtml⟩ := h
    simp only [withoutTarget, Json.Fields.erase_eq_self hidentifier,
      Json.Fields.erase_eq_self hlabel, Json.Fields.erase_eq_self hhtml]
  | container | exercise | solution | proof => cases h
  | _ => rfl

namespace CommonMark

theorem degradeLeaf_of_isPlain {l : Leaf} (h : l.isPlain = true) :
    (degradeLeaf l).map Node.withoutTarget = [.leaf l] := by
  cases l with
  | code c =>
    obtain ⟨lang, metadata, value, cssClass, emphasizeLines, showLineNumbers, startingLineNumber,
      filename, target⟩ := c
    simp only [Leaf.isPlain, Code.isPlain, Bool.and_eq_true, Option.isNone_iff_eq_none,
      beq_iff_eq] at h
    obtain ⟨⟨⟨⟨⟨rfl, rfl⟩, rfl⟩, rfl⟩, rfl⟩, rfl⟩ := h
    rfl
  | image i =>
    obtain ⟨url, title, alt, cssClass, width, height, align⟩ := i
    simp only [Leaf.isPlain, Image.isPlain, Bool.and_eq_true, Option.isNone_iff_eq_none] at h
    obtain ⟨⟨⟨rfl, rfl⟩, rfl⟩, rfl⟩ := h
    rfl
  | math | inlineMath | target | comment => cases h
  | _ => rfl

mutual

theorem degradeNode_of_plain (dropSolutions : Bool) : (n : Node) →
    (n.Everywhere fun m => m.isPlain = true) →
    (degradeNode dropSolutions n).map Node.withoutTarget = [n]
  | .leaf l, h => by
    rw [degradeNode]
    exact degradeLeaf_of_isPlain (Node.everywhere_leaf.mp h)
  | .parent p cs, h => by
    obtain ⟨hp, hcs⟩ := Node.everywhere_parent.mp h
    rw [degradeNode, degrade_of_plain dropSolutions cs hcs,
      degradeParent_eq_self (Parent.isMystOnly_of_isPlain hp), List.map_singleton,
      Node.withoutTarget, Parent.withoutTarget_eq_self hp]

theorem degrade_of_plain (dropSolutions : Bool) : (ns : List Node) → Plain ns →
    degrade dropSolutions ns = ns
  | [], _ => by rw [degrade]
  | n :: ns, h => by
    obtain ⟨hn, hns⟩ := List.forall_mem_cons.mp h
    rw [degrade, degradeNode_of_plain dropSolutions n hn, degrade_of_plain dropSolutions ns hns,
      List.singleton_append]

end

/-- What degrading leaves as it is does not depend on its options. -/
theorem degrade_eq_self_iff {dropSolutions : Bool} {ns : List Node} :
    degrade dropSolutions ns = ns ↔ Plain ns := by
  constructor
  · intro h
    rw [← h]
    exact plain_degrade dropSolutions ns
  · exact degrade_of_plain dropSolutions ns

/-- Degrading once is enough, also when solutions are dropped only the second time. -/
theorem degrade_degrade (dropFirst dropSecond : Bool) (ns : List Node) :
    degrade dropSecond (degrade dropFirst ns) = degrade dropFirst ns := by
  rw [degrade_eq_self_iff]
  exact plain_degrade dropFirst ns

end CommonMark
end MystNotebook
