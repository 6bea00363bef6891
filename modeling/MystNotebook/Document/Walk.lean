import MystNotebook.Document.Node

/-! Walks over documents: all nodes in pre-order, the plain text, and the removal of what makes
nodes targets of references. -/
namespace MystNotebook
namespace Node

mutual

/-- The node and its descendants, parents first. -/
def preorder : Node → List Node
  | .leaf l => [.leaf l]
  | .parent p cs => .parent p cs :: preorderAll cs

def preorderAll : List Node → List Node
  | [] => []
  | n :: ns => preorder n ++ preorderAll ns

end

theorem preorderAll_eq_flatMap (ns : List Node) : preorderAll ns = ns.flatMap preorder := by
  induction ns with
  | nil => rfl
  | cons n ns ih => simp [preorderAll, ih]

/-- Whether `P` holds of the node and of all its descendants. -/
def Everywhere (P : Node → Prop) (n : Node) : Prop := ∀ m ∈ preorder n, P m

theorem forall_mem_preorderAll {P : Node → Prop} {ns : List Node} :
    (∀ m ∈ preorderAll ns, P m) ↔ ∀ n ∈ ns, Everywhere P n := by
  simp only [preorderAll_eq_flatMap, List.mem_flatMap, Everywhere]
  constructor
  · intro h n hn m hm
    exact h m ⟨n, hn, hm⟩
  · rintro h m ⟨n, hn, hm⟩
    exact h n hn m hm

@[simp] theorem everywhere_leaf {P : Node → Prop} {l : Leaf} :
    Everywhere P (.leaf l) ↔ P (.leaf l) := by
  simp [Everywhere, preorder]

@[simp] theorem everywhere_parent {P : Node → Prop} {p : Parent} {cs : List Node} :
    Everywhere P (.parent p cs) ↔ P (.parent p cs) ∧ ∀ c ∈ cs, Everywhere P c := by
  rw [Everywhere, preorder, List.forall_mem_cons, forall_mem_preorderAll]

theorem Everywhere.self {P : Node → Prop} {n : Node} (h : n.Everywhere P) : P n := by
  cases n with
  | leaf l => exact everywhere_leaf.mp h
  | parent p cs => exact (everywhere_parent.mp h).1

/-- What a node itself adds to the plain text. -/
def ownText : Node → String
  | .leaf (.text value) | .leaf (.inlineCode value) | .leaf (.inlineMath value) => value
  | _ => ""

def plainText (ns : List Node) : String := String.join ((preorderAll ns).map ownText)

end Node

/-- Cross references keep theirs, which point elsewhere. -/
def Parent.withoutTarget : Parent → Parent
  | .block kind data _ => .block kind data {}
  | .heading depth _ => .heading depth {}
  | .container kind _ enumerator cssClass => .container kind {} enumerator cssClass
  | .exercise _ enumerator cssClass => .exercise {} enumerator cssClass
  | .solution _ cssClass => .solution {} cssClass
  | .proof kind _ enumerator => .proof kind {} enumerator
  | .other name fields => .other name (((fields.erase "identifier").erase "label").erase "html_id")
  | p => p

def Leaf.withoutTarget : Leaf → Leaf
  | .code c => .code { c with target := {} }
  | .math m => .math { m with target := {} }
  | l => l

/-- The children keep theirs. -/
def Node.withoutTarget : Node → Node
  | .leaf l => .leaf l.withoutTarget
  | .parent p cs => .parent p.withoutTarget cs

end MystNotebook
