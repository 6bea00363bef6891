import MystNotebook.Proofs.PhrasingText
import MystNotebook.Proofs.TextParts

/-! Headings as lines. The content of a heading is written behind its marks as it is, and its lines
are not joined, as they are in titles and in table cells; so a heading is one line exactly if
nothing in it breaks a line. -/
namespace MystNotebook.Markdown
open Text Draft

/-- Phrasing content all of whose strings and children are written. -/
def isPhrase : Node → Bool
  | .leaf l => isInline (.leaf l)
  | .parent p _ => match p with
    | .emphasis | .strong | .link _ _ => true
    | _ => false

def phraseTexts : Node → List String
  | .leaf (.text value) | .leaf (.inlineCode value) | .leaf (.inlineMath value) => [value]
  | .leaf (.image i) => i.alt.toList ++ i.url :: i.title.toList
  | .parent (.link url title) _ => url :: title.toList
  | _ => []

/-- Whether the node itself, apart from its children, brings a newline with it. -/
def breaksLine (n : Node) : Bool :=
  n == .leaf .lineBreak || (phraseTexts n).any fun s => s.toList.contains '\n'

theorem isInline_of_isPhrase {n : Node} (h : isPhrase n = true) : isInline n = true := by
  cases n with
  | leaf l => exact h
  | parent p cs =>
    cases p with
    | emphasis | strong | link => rfl
    | _ => cases h

/-! Newlines in the pieces of a phrase. Escaping keeps them. -/

theorem newline_mem_linkEnd (url : List Char) (title : Option String) :
    '\n' ∈ linkEnd url title ↔ '\n' ∈ url ∨ ∃ t ∈ title, '\n' ∈ t.toList := by
  have hdestination : '\n' ∈ destination url ↔ '\n' ∈ url := by
    rw [destination, schemedDestination, escapeAngles, escapeParentheses]
    split
    · simp [mem_replace_iff]
    · simp [mem_replace_iff]
  have htitle : '\n' ∈ titleText title ↔ ∃ t ∈ title, '\n' ∈ t.toList := by
    cases title with
    | none => simp [titleText]
    | some t => simp [titleText, mem_replace_iff]
  simp [linkEnd, hdestination, htitle]

theorem newline_mem_imageText (i : Image) :
    '\n' ∈ imageText i ↔ breaksLine (.leaf (.image i)) = true := by
  have halt : '\n' ∈ escapeBrackets (i.alt.getD "").toList ↔ ∃ a ∈ i.alt, '\n' ∈ a.toList := by
    rw [escapeBrackets, mem_replace_iff (by decide) (by decide),
      mem_replace_iff (by decide) (by decide)]
    cases i.alt <;> simp
  simp [imageText, newline_mem_linkEnd, halt, breaksLine, phraseTexts]

theorem newline_mem_codeSpan (value : List Char) : '\n' ∈ codeSpan value ↔ '\n' ∈ value := by
  unfold codeSpan
  split <;> simp

theorem newline_mem_leafText {l : Leaf} (h : isInline (.leaf l) = true) (tick : Bool) :
    '\n' ∈ phrasingText tick (.leaf l) ↔ breaksLine (.leaf l) = true := by
  cases l with
  | inlineCode value =>
    cases tick <;> simp [phrasingText, newline_mem_codeSpan, breaksLine, phraseTexts]
  | image i => exact newline_mem_imageText i
  | text | lineBreak | inlineMath => simp [phrasingText, breaksLine, phraseTexts]
  | _ => cases h

mutual

theorem newline_mem_phrasingText : (n : Node) → n.Everywhere (isPhrase · = true) → (tick : Bool) →
    ('\n' ∈ phrasingText tick n ↔ ∃ m ∈ n.preorder, breaksLine m = true)
  | .leaf l, h, tick => by
    rw [newline_mem_leafText (Node.everywhere_leaf.mp h)]
    simp [Node.preorder]
  | .parent p cs, h, tick => by
    obtain ⟨hp, hcs⟩ := Node.everywhere_parent.mp h
    have hchildren := newline_mem_phrasingTextAll cs hcs false
    cases p with
    | emphasis | strong =>
      simp [phrasingText, Node.preorder, hchildren, breaksLine, phraseTexts]
    | link url title =>
      have hlink : breaksLine (.parent (.link url title) cs) = true ↔
          '\n' ∈ linkEnd url.toList title := by
        simp [newline_mem_linkEnd, breaksLine, phraseTexts]
      simp only [phrasingText, List.mem_append, hchildren, Node.preorder,
        List.mem_cons, exists_eq_or_imp, hlink]
      simp [or_comm]
    | _ => cases hp

/-- A newline in the text comes from a node that breaks a line, at whatever depth. -/
theorem newline_mem_phrasingTextAll : (ns : List Node) →
    (∀ n ∈ ns, n.Everywhere (isPhrase · = true)) → (tick : Bool) →
    ('\n' ∈ phrasingTextAll tick ns ↔ ∃ m ∈ Node.preorderAll ns, breaksLine m = true)
  | [], _, tick => by simp [phrasingTextAll, Node.preorderAll]
  | n :: ns, h, tick => by
    obtain ⟨hn, hns⟩ := List.forall_mem_cons.mp h
    have hfirst := newline_mem_phrasingText n hn tick
    have hrest := newline_mem_phrasingTextAll ns hns (endsInTick tick (phrasingText tick n))
    rw [phrasingTextAll, Node.preorderAll, List.mem_append, hfirst, hrest]
    simp only [List.mem_append, or_and_right, exists_or]

end

/-! The heading. -/

/-- What a heading writes behind its target: its marks, its content and a newline. -/
def headingText (level : UInt8) (ns : List Node) : List Char :=
  List.replicate (max 1 (min level.toNat 6)) '#' ++ ' ' :: phrasingTextAll false ns ++ ['\n']

theorem page_heading {ns : List Node} (h : ∀ n ∈ ns, n.Everywhere (isInline · = true))
    (level : UInt8) (target : Target) (d : Draft) :
    (writeNode (.parent (.heading level target) ns) d).page =
      (headingText level ns).reverse ++ (d.target target.label).newline.page := by
  let start := (d.target target.label).newline.push
    (List.replicate (max 1 (min level.toNat 6)) '#' ++ [' '])
  have hcontent := adds_writeInlines ns h start
  have htick : start.endsWith '`' = false := by
    simp [endsWith_eq, start, push]
  have hwritten : (writeNode (.parent (.heading level target) ns) d).page =
      '\n' :: (writeInlines ns start).page := by
    rw [writeNode]
    rfl
  rw [htick] at hcontent
  rw [hwritten, hcontent.page]
  simp [start, headingText, push]

/-- Whatever stands before it, a heading writes one to six marks, a space, its content and a
newline, and this is one line exactly if no node of its content brings a newline with it. -/
theorem isEndedLine_heading_iff {ns : List Node} (h : ∀ n ∈ ns, n.Everywhere (isPhrase · = true))
    (level : UInt8) (target : Target) (d : Draft) :
    (writeNode (.parent (.heading level target) ns) d).page =
        (headingText level ns).reverse ++ (d.target target.label).newline.page ∧
      (∃ marks, 1 ≤ marks ∧ marks ≤ 6 ∧ headingText level ns =
        List.replicate marks '#' ++ ' ' :: phrasingTextAll false ns ++ ['\n']) ∧
      (IsEndedLine (headingText level ns) ↔ ∀ n ∈ Node.preorderAll ns, breaksLine n = false) := by
  have hinline : ∀ n ∈ ns, n.Everywhere (isInline · = true) :=
    fun n hn m hm => isInline_of_isPhrase (h n hn m hm)
  refine ⟨page_heading hinline level target d, ⟨_, le_max_left _ _, by omega, rfl⟩, ?_⟩
  have hmarks : '\n' ∉ List.replicate (max 1 (min level.toNat 6)) '#' :=
    fun hmem => absurd (List.eq_of_mem_replicate hmem) (by decide)
  rw [headingText, isEndedLine_concat, List.mem_append, List.mem_cons, or_iff_right hmarks,
    or_iff_right (by decide), newline_mem_phrasingTextAll ns h]
  simp

/-- A heading with code, an image and a link in it; the newline is in a class, which only a
directive would write. -/
theorem isEndedLine_heading_linked :
    let ns : List Node := [.text "On ", .emphasis [.leaf (.inlineCode "a`b")],
      .parent (.link "b.md" (some "B"))
        [.leaf (.image { url := "c.png", cssClass := some "x\ny" })]]
    (∀ n ∈ ns, n.Everywhere (isPhrase · = true)) ∧
      headingText 3 ns = "### On *`` a`b ``*[![](c.png)](b.md \"B\")\n".toList ∧
      IsEndedLine (headingText 3 ns) := by
  intro ns
  have h : ∀ n ∈ ns, n.Everywhere (isPhrase · = true) := by
    simp [ns, Node.text, Node.emphasis, isPhrase, isInline]
  have hline := (isEndedLine_heading_iff h 3 { label := some "on" } {}).2.2
  exact ⟨h, by decide, hline.mpr (by decide)⟩

/-- A newline in a text ends the heading, and so does a break: what follows is a paragraph. -/
theorem write_brokenHeading :
    let heading (ns : List Node) : List Node := [.parent (.heading 2 {}) ns]
    (write true (heading [.text "a\nb"]) = "## a\nb\n" ∧ ¬ IsEndedLine "## a\nb\n".toList) ∧
      write true (heading [.text "a", .leaf .lineBreak, .text "b"]) = "## a  \nb\n" ∧
      ¬ IsEndedLine "## a  \nb\n".toList := by
  have hbroken (s : List Char) (hs : '\n' ∈ s) : ¬ IsEndedLine (s ++ ['\n']) :=
    fun hline => isEndedLine_concat.mp hline hs
  exact ⟨⟨by decide, hbroken "## a\nb".toList (by decide)⟩, by decide,
    hbroken "## a  \nb".toList (by decide)⟩

end MystNotebook.Markdown
