import MystNotebook.Proofs.NormalForm

/-! Captions as descriptions. An image of a figure takes the plain text of the caption, but of the
caption as degrading has left it; inline math has become HTML by then, which has no plain text, so
the image lacks the math of its caption. -/
namespace MystNotebook

namespace Node

theorem plainText_append (ms ns : List Node) :
    plainText (ms ++ ns) = plainText ms ++ plainText ns := by
  rw [plainText, preorderAll_eq_flatMap, List.flatMap_append, List.map_append, String.join_append,
    ← preorderAll_eq_flatMap, ← preorderAll_eq_flatMap, plainText, plainText]

theorem plainText_parent (p : Parent) (cs : List Node) :
    plainText [.parent p cs] = plainText cs := by
  simp [plainText, preorderAll, preorder, ownText]

/-- A leaf, or a parent that degrading leaves in its place. -/
def isInPlace : Node → Bool
  | .leaf _ => true
  | .parent p _ => !p.isMystOnly

/-- What a node itself adds to the plain text when math is no text. -/
def mathlessText : Node → String
  | .leaf (.inlineMath _) => ""
  | n => n.ownText

theorem mathlessText_eq_or_empty (n : Node) :
    n.mathlessText = n.ownText ∨ n.mathlessText = "" := by
  unfold mathlessText
  split
  next => exact .inr rfl
  next => exact .inl rfl

theorem mathlessText_eq_iff {n : Node} :
    n.mathlessText = n.ownText ↔ ∀ value, n = .leaf (.inlineMath value) → value = "" := by
  cases n with
  | leaf l => cases l <;> simp [mathlessText, ownText, eq_comm]
  | parent p cs => simp [mathlessText]

end Node

namespace CommonMark
open Node

/-! The plain text of degraded content. -/

theorem plainText_degradeLeaf (l : Leaf) :
    plainText ((degradeLeaf l).map Node.withoutTarget) = mathlessText (.leaf l) := by
  cases l <;> rfl

mutual

theorem plainText_degradeNode (dropSolutions : Bool) : (n : Node) →
    n.Everywhere (isInPlace · = true) →
    plainText ((degradeNode dropSolutions n).map Node.withoutTarget) =
      String.join ((preorder n).map mathlessText)
  | .leaf l, h => by
    rw [degradeNode, plainText_degradeLeaf]
    simp [preorder]
  | .parent p cs, h => by
    obtain ⟨hp, hcs⟩ := everywhere_parent.mp h
    have hchildren := plainText_degrade dropSolutions cs hcs
    have hplace : p.isMystOnly = false := by simpa [isInPlace] using hp
    rw [degradeNode, degradeParent_eq_self hplace, List.map_singleton, Node.withoutTarget,
      plainText_parent, hchildren]
    simp [preorder, mathlessText, ownText]

/-- Where everything stays in its place, only math is lost from the plain text. -/
theorem plainText_degrade (dropSolutions : Bool) : (ns : List Node) →
    (∀ n ∈ ns, n.Everywhere (isInPlace · = true)) →
    plainText (degrade dropSolutions ns) = String.join ((preorderAll ns).map mathlessText)
  | [], _ => rfl
  | n :: ns, h => by
    obtain ⟨hn, hns⟩ := List.forall_mem_cons.mp h
    rw [degrade, plainText_append, plainText_degradeNode dropSolutions n hn,
      plainText_degrade dropSolutions ns hns, preorderAll, List.map_append, String.join_append]

end

/-! Leaving out some of the texts. -/

section
variable {α : Type} {f g : α → String}

theorem length_join_map_le {l : List α} (h : ∀ x ∈ l, f x = g x ∨ f x = "") :
    (String.join (l.map f)).length ≤ (String.join (l.map g)).length := by
  induction l with
  | nil => exact le_refl _
  | cons x l ih =>
    obtain ⟨hx, hl⟩ := List.forall_mem_cons.mp h
    have hfirst : (f x).length ≤ (g x).length := by
      rcases hx with hx | hx <;> simp [hx]
    rw [List.map_cons, List.map_cons, String.join_cons, String.join_cons, String.length_append,
      String.length_append]
    exact Nat.add_le_add hfirst (ih hl)

/-- The text stays the same only if what is left out is empty. -/
theorem join_map_eq_iff {l : List α} (h : ∀ x ∈ l, f x = g x ∨ f x = "") :
    String.join (l.map f) = String.join (l.map g) ↔ ∀ x ∈ l, f x = g x := by
  induction l with
  | nil => simp
  | cons x l ih =>
    obtain ⟨hx, hl⟩ := List.forall_mem_cons.mp h
    rw [List.map_cons, List.map_cons, String.join_cons, String.join_cons, List.forall_mem_cons,
      ← ih hl]
    constructor
    · intro heq
      have hsame : f x = g x := by
        rcases hx with hx | hx
        · exact hx
        · have hlength := congrArg String.length heq
          have hle := length_join_map_le hl
          rw [hx, String.length_append, String.length_append, String.length_empty] at hlength
          rw [hx, String.length_eq_zero_iff.mp (show (g x).length = 0 by omega)]
      rw [hsame] at heq
      exact ⟨hsame, String.append_right_inj _ |>.mp heq⟩
    · rintro ⟨hsame, hrest⟩
      rw [hsame, hrest]

end

/-! Figures. -/

/-- The last of the nodes that are accepted is found by what it has in common with all of them. -/
theorem lastOf_eq_some {children? : Node → Option (List Node)} {ns cs : List Node} {n : Node}
    (hn : n ∈ ns) (hcs : children? n = some cs)
    (honly : ∀ m ∈ ns, ∀ ds, children? m = some ds → ds = cs) :
    lastOf children? ns = some cs := by
  cases hlast : lastOf children? ns with
  | none =>
    have hnone := List.findSome?_eq_none_iff.mp hlast n (List.mem_reverse.mpr hn)
    rw [hcs] at hnone
    cases hnone
  | some ds =>
    obtain ⟨m, hm, hds⟩ := List.exists_of_findSome?_eq_some hlast
    rw [honly m (List.mem_reverse.mp hm) ds hds]

theorem caption?_withoutTarget (n : Node) : caption? n.withoutTarget = caption? n := by
  cases n with
  | leaf l => rfl
  | parent p cs => cases p <;> rfl

theorem degrade_append (dropSolutions : Bool) (ms ns : List Node) :
    degrade dropSolutions (ms ++ ns) = degrade dropSolutions ms ++ degrade dropSolutions ns := by
  rw [degrade_eq_flatMap, degrade_eq_flatMap, degrade_eq_flatMap, List.flatMap_append]

/-- The caption of a figure is its only one if nothing else gives way to one. -/
theorem lastOf_caption_degrade {dropSolutions : Bool} {ns content : List Node}
    (hcaption : .parent .caption content ∈ ns)
    (honly : ∀ n ∈ ns, n ≠ .parent .caption content →
      ∀ m ∈ degradeNode dropSolutions n, caption? m = none) :
    lastOf caption? (degrade dropSolutions ns) = some (degrade dropSolutions content) := by
  refine lastOf_eq_some (n := .parent .caption (degrade dropSolutions content)) ?_ rfl ?_
  · rw [degrade_eq_flatMap, List.mem_flatMap]
    exact ⟨_, hcaption, List.mem_singleton.mpr rfl⟩
  · intro m hm ds hds
    rw [degrade_eq_flatMap, List.mem_flatMap] at hm
    obtain ⟨n, hn, hm⟩ := hm
    obtain ⟨k, hk, rfl⟩ := List.mem_map.mp hm
    rw [caption?_withoutTarget] at hds
    by_cases heq : n = .parent .caption content
    · subst heq
      obtain rfl := List.mem_singleton.mp hk
      exact (Option.some.inj hds).symm
    · rw [honly n hn heq k hk] at hds
      cases hds

/-- The nodes of a figure besides its captions and legends. -/
def figureBody (cs : List Node) : List Node :=
  cs.filter fun n => (caption? n).isNone && (legend? n).isNone

/-- A figure shows its other nodes first, the images among them with the text of the caption. -/
theorem exists_container_figure {cs content : List Node} (enumerator : Option String)
    (hcaption : lastOf caption? cs = some content) :
    ∃ rest, container (some "figure") enumerator cs =
      (figureBody cs).map (described (plainText content)) ++ rest := by
  simp only [container, hcaption, Option.getD_some]
  exact ⟨_, List.append_assoc _ _ _⟩

/-- An image without its presentation, and with the given description. -/
def describedAs (alt : Option String) (i : Image) : Node :=
  .leaf (.image { url := i.url, title := i.title, alt := alt })

@[simp] theorem withoutTarget_describedAs (alt : Option String) (i : Image) :
    (describedAs alt i).withoutTarget = describedAs alt i := rfl

theorem described_plainImage {caption : String} {i : Image} (halt : i.alt.getD "" = "") :
    described caption (describedAs i.alt i) =
      describedAs (if caption = "" then i.alt else some caption) i := by
  by_cases hcaption : caption = ""
  · simp [described, describedAs, hcaption]
  · simp [described, describedAs, halt, hcaption]

/-- An image without a description keeps its place and takes the text of what the caption has given
way to. -/
theorem degrade_figureImage {dropSolutions : Bool} {target : Target}
    {enumerator cssClass : Option String} {xs ys content : List Node} {i : Image}
    (halt : i.alt.getD "" = "")
    (hcaption : lastOf caption? (degrade dropSolutions (xs ++ .leaf (.image i) :: ys)) =
      some content) :
    (degrade dropSolutions [.parent (.container (some "figure") target enumerator cssClass)
        (xs ++ .leaf (.image i) :: ys)])[(figureBody (degrade dropSolutions xs)).length]? =
      some (describedAs
        (if plainText content = "" then i.alt else some (plainText content)) i) := by
  have hbody : figureBody (degrade dropSolutions (xs ++ .leaf (.image i) :: ys)) =
      figureBody (degrade dropSolutions xs) ++ describedAs i.alt i ::
        figureBody (degrade dropSolutions ys) := by
    rw [degrade_append, figureBody, List.filter_append]
    rfl
  obtain ⟨rest, hfigure⟩ := exists_container_figure enumerator hcaption
  rw [degrade, degradeNode, degradeParent, hfigure, hbody]
  simp [described_plainImage halt]

/-- An image of a figure without a description takes exactly the plain text of the caption if and
only if the caption holds no math: what stands in its place after degrading has no plain text. -/
theorem figureImage_alt_iff (dropSolutions : Bool) (target : Target)
    (enumerator cssClass : Option String) (xs ys content : List Node) (i : Image)
    (halt : i.alt.getD "" = "") (hcaption : .parent .caption content ∈ xs ++ ys)
    (honly : ∀ n ∈ xs ++ ys, n ≠ .parent .caption content →
      ∀ m ∈ degradeNode dropSolutions n, caption? m = none)
    (hplace : (preorderAll content).all isInPlace = true) (htext : plainText content ≠ "") :
    ∃ alt, (degrade dropSolutions [.parent (.container (some "figure") target enumerator cssClass)
        (xs ++ .leaf (.image i) :: ys)])[(figureBody (degrade dropSolutions xs)).length]? =
          some (describedAs alt i) ∧
      (alt = some (plainText content) ↔
        ∀ value, .leaf (.inlineMath value) ∈ preorderAll content → value = "") := by
  have hlast : lastOf caption? (degrade dropSolutions (xs ++ .leaf (.image i) :: ys)) =
      some (degrade dropSolutions content) := by
    have hperm : (xs ++ .leaf (.image i) :: ys).Perm (.leaf (.image i) :: (xs ++ ys)) :=
      List.perm_middle
    refine lastOf_caption_degrade (hperm.mem_iff.mpr (List.mem_cons_of_mem _ hcaption)) ?_
    intro n hn hne m hm
    rcases List.mem_cons.mp (hperm.mem_iff.mp hn) with rfl | hn
    · rw [List.mem_singleton.mp hm]
      rfl
    · exact honly n hn hne m hm
  have hmath : String.join ((preorderAll content).map mathlessText) = plainText content ↔
      ∀ value, .leaf (.inlineMath value) ∈ preorderAll content → value = "" := by
    rw [plainText, join_map_eq_iff fun n _ => mathlessText_eq_or_empty n]
    simp only [mathlessText_eq_iff]
    constructor
    · exact fun h value hvalue => h _ hvalue value rfl
    · rintro h n hn value rfl
      exact h value hn
  rw [List.all_eq_true, forall_mem_preorderAll] at hplace
  refine ⟨_, degrade_figureImage halt hlast, ?_⟩
  rw [← hmath, ← plainText_degrade dropSolutions content hplace]
  split
  -- nothing is left of a caption of math alone, and the image stays without a description
  next hempty =>
    rw [hempty]
    refine iff_of_false (fun hsome => ?_) htext.symm
    rw [hsome] at halt
    exact htext halt
  next => rw [Option.some_inj]

/-- A caption with marked up text, a link and code, and a legend with math. -/
theorem figureImage_alt_markedUp :
    let content := [Node.paragraph [.text "The ", .emphasis [.text "mean"], .text " of ",
      .parent (.link "a.md" none) [.leaf (.inlineCode "xs")]]]
    let legend : Node := .parent .legend [.paragraph [.leaf (.inlineMath "x")]]
    let figure : Node := .parent (.container (some "figure") {} (some "1") none)
      ([.text "before"] ++ .leaf (.image { url := "a.png" }) :: [legend, .parent .caption content])
    plainText content = "The mean of xs" ∧
      ∃ alt, (degrade false [figure])[1]? = some (.leaf (.image { url := "a.png", alt := alt })) ∧
        alt = some "The mean of xs" := by
  intro content legend figure
  have hmath : ∀ value, .leaf (.inlineMath value) ∈ preorderAll content → value = "" := by
    intro value hvalue
    simp [content, preorderAll, preorder, Node.text, Node.paragraph, Node.emphasis] at hvalue
  obtain ⟨alt, himage, halt⟩ := figureImage_alt_iff false {} (some "1") none [.text "before"]
    [legend, .parent .caption content] content { url := "a.png" } rfl (by simp) (by decide)
    (by decide) (by decide)
  exact ⟨rfl, alt, himage, halt.mpr hmath⟩

/-- The math of a caption is missing from the description. -/
theorem degrade_mathCaption :
    let content := [Node.paragraph [.text "Energy ", .leaf (.inlineMath "E")]]
    let figure : Node := .parent (.container (some "figure") {} none none)
      [.leaf (.image { url := "a.png" }), .parent .caption content]
    plainText content = "Energy E" ∧
      degrade false [figure] = [.leaf (.image { url := "a.png", alt := some "Energy " }),
        .paragraph [.emphasis [.text "Energy ", .html "$E$"]]] := by
  decide

end CommonMark
end MystNotebook
