import Mathlib.Data.List.Basic
import MystNotebook.Document.Walk
import MystNotebook.Proofs.DirectiveParts

/-! Phrasing content as a text. What it writes does not depend on the draft, apart from one space
that keeps a code span at the start away from a backtick in front of it. -/
namespace MystNotebook.Markdown
open Draft

def codeSpan (value : List Char) : List Char :=
  if value.contains '`' then "`` ".toList ++ value ++ " ``".toList else ['`'] ++ value ++ ['`']

theorem head?_codeSpan (value : List Char) : (codeSpan value).head? = some '`' := by
  unfold codeSpan
  split <;> rfl

theorem codeSpan_ne_nil (value : List Char) : codeSpan value ≠ [] :=
  List.ne_nil_of_mem (List.mem_of_mem_head? (head?_codeSpan value))

/-- Whether a backtick stands at the end, when `tick` says so of what stands before the text. -/
def endsInTick (tick : Bool) (s : List Char) : Bool :=
  if s.isEmpty then tick else s.getLast? == some '`'

mutual

/-- The text of phrasing content; `tick` says that a backtick stands before it. -/
def phrasingText (tick : Bool) : Node → List Char
  | .leaf l =>
    match l with
    | .text value => value.toList
    | .inlineCode value => (if tick then [' '] else []) ++ codeSpan value.toList
    | .lineBreak => "  \n".toList
    | .image i => imageText i
    | .inlineMath value => ['$'] ++ value.toList ++ ['$']
    | _ => []
  | .parent p cs =>
    match p with
    | .emphasis => ['*'] ++ phrasingTextAll false cs ++ ['*']
    | .strong => ['*', '*'] ++ phrasingTextAll false cs ++ ['*', '*']
    | .link url title => ['['] ++ phrasingTextAll false cs ++ linkEnd url.toList title
    | .crossReference _ target =>
      match target.identifier <|> target.label with
      | none => phrasingTextAll tick cs
      | some destination =>
        let shown := (target.label.getD destination).toList
        ['['] ++ (if cs.isEmpty then shown else phrasingTextAll false cs) ++
          linkEnd ('#' :: destination.toList) none
    | .role name value =>
      match value with
      | some value => ['\x7b'] ++ name.toList ++ ['\x7d'] ++ codeSpan value.toList
      | none => phrasingTextAll tick cs
    | _ => []

def phrasingTextAll (tick : Bool) : List Node → List Char
  | [] => []
  | n :: ns =>
    phrasingText tick n ++ phrasingTextAll (endsInTick tick (phrasingText tick n)) ns

end

@[simp] theorem endsInTick_nil (tick : Bool) : endsInTick tick [] = tick := rfl

theorem endsInTick_append (tick : Bool) (s t : List Char) :
    endsInTick tick (s ++ t) = endsInTick (endsInTick tick s) t := by
  by_cases ht : t = []
  · rw [ht, List.append_nil, endsInTick_nil]
  · simp [endsInTick, ht, List.getLast?_append_of_ne_nil s ht]

theorem phrasingTextAll_append (tick : Bool) (ms ns : List Node) :
    phrasingTextAll tick (ms ++ ns) =
      phrasingTextAll tick ms ++
        phrasingTextAll (endsInTick tick (phrasingTextAll tick ms)) ns := by
  induction ms generalizing tick with
  | nil => rfl
  | cons m ms ih =>
    rw [List.cons_append, phrasingTextAll, phrasingTextAll, ih, endsInTick_append,
      List.append_assoc]

/-! The space in front of a code span. -/

/-- With a backtick in front, a text is the same, or it starts with a code span and has a space
more. -/
def SpacedBy (s t : List Char) : Prop := t = s ∨ s.head? = some '`' ∧ t = ' ' :: s

theorem SpacedBy.length_le {s t : List Char} (h : SpacedBy s t) : t.length ≤ s.length + 1 := by
  rcases h with rfl | ⟨-, rfl⟩
  · exact Nat.le_succ _
  · exact Nat.le_refl _

mutual

theorem spacedBy_phrasingText : (n : Node) → SpacedBy (phrasingText false n) (phrasingText true n)
  | .leaf l => by
    cases l with
    | inlineCode value =>
      right
      refine ⟨?_, rfl⟩
      simpa [phrasingText] using head?_codeSpan value.toList
    | _ => exact .inl rfl
  | .parent p cs => by
    have hcs := spacedBy_phrasingTextAll cs
    cases p with
    | crossReference kind target =>
      simp only [phrasingText]
      split
      · exact hcs
      · exact .inl rfl
    | role name value =>
      cases value with
      | none => exact hcs
      | some value => exact .inl rfl
    | _ => exact .inl rfl

/-- The first text that is not empty takes the space, and all behind it is the same. -/
theorem spacedBy_phrasingTextAll : (ns : List Node) →
    SpacedBy (phrasingTextAll false ns) (phrasingTextAll true ns)
  | [] => .inl rfl
  | n :: ns => by
    rw [phrasingTextAll, phrasingTextAll]
    rcases spacedBy_phrasingText n with heq | ⟨htick, heq⟩
    · rw [heq]
      by_cases hn : phrasingText false n = []
      · rw [hn]
        exact spacedBy_phrasingTextAll ns
      · left
        simp [endsInTick, hn]
    · right
      have hne : phrasingText false n ≠ [] := List.ne_nil_of_mem (List.mem_of_mem_head? htick)
      have hlast : (' ' :: phrasingText false n).getLast? = (phrasingText false n).getLast? :=
        List.getLast?_append_of_ne_nil [' '] hne
      rw [heq]
      refine ⟨by rw [List.head?_append_of_ne_nil _ hne, htick], ?_⟩
      simp [endsInTick, hne, hlast]

end

theorem spacedBy_tick (tick : Bool) (ns : List Node) :
    SpacedBy (phrasingTextAll false ns) (phrasingTextAll tick ns) := by
  cases tick with
  | false => exact .inl rfl
  | true => exact spacedBy_phrasingTextAll ns

/-! What is written. -/

namespace Draft

/-- The second draft has a text more on its running line, and perhaps more reports. -/
structure Adds (s : List Char) (d d' : Draft) : Prop where
  before : d'.before = d.before
  page : d'.page = s.reverse ++ d.page
  lineStart : d'.lineStart = if s.isEmpty then d.lineStart else s.getLast? == some '\n'

theorem endsWith_eq (d : Draft) (c : Char) :
    d.endsWith c = ((d.page ++ d.before).head? == some c) := by
  unfold endsWith recent
  cases d.page with
  | nil => cases d.before <;> rfl
  | cons a page =>
    cases page with
    | nil => cases d.before <;> rfl
    | cons b page => rfl

namespace Adds
variable {s t : List Char} {d d' d'' : Draft}

theorem refl (d : Draft) : Adds [] d d := ⟨rfl, rfl, rfl⟩

theorem report (h : Adds s d d') (nodeType message : String) :
    Adds s d (d'.report nodeType message) :=
  ⟨h.before, h.page, h.lineStart⟩

theorem trans (h : Adds s d d') (h' : Adds t d' d'') : Adds (s ++ t) d d'' := by
  constructor
  · rw [h'.before, h.before]
  · rw [h'.page, h.page, List.reverse_append, List.append_assoc]
  · rw [h'.lineStart, h.lineStart]
    by_cases ht : t = []
    · simp [ht]
    · simp [ht, List.getLast?_append_of_ne_nil s ht]

/-- From an empty page. -/
theorem page_eq (h : Adds s {} d) : d.page = s.reverse :=
  h.page.trans (List.append_nil _)

theorem inline (d : Draft) (s : List Char) : Adds s d (d.inline s) := by
  unfold Draft.inline
  split
  next hs =>
    rw [List.isEmpty_iff.mp hs]
    exact refl d
  next hs => exact ⟨rfl, rfl, by simp [hs]⟩

theorem endsWith_tick (h : Adds s d d') :
    d'.endsWith '`' = endsInTick (d.endsWith '`') s := by
  rw [endsWith_eq, endsWith_eq, h.before, h.page, endsInTick]
  by_cases hs : s = []
  · simp [hs]
  · rw [List.append_assoc, List.head?_append_of_ne_nil _ (by simpa using hs), List.head?_reverse]
    simp [hs]

theorem wrapped {write : Draft → Draft} (marker closing : List Char) (d : Draft)
    (h : Adds s (d.inline marker) (write (d.inline marker))) :
    Adds (marker ++ s ++ closing) d ((write (d.inline marker)).inline closing) :=
  ((inline d marker).trans h).trans (inline _ closing)

theorem inlineCode (d : Draft) (value : List Char) :
    Adds ((if d.endsWith '`' then [' '] else []) ++ codeSpan value) d (d.inlineCode value) := by
  have hspan (d : Draft) : Adds (codeSpan value) d (if value.contains '`'
      then d.inline ("`` ".toList ++ value ++ " ``".toList)
      else d.inline (['`'] ++ value ++ ['`'])) := by
    unfold codeSpan
    split <;> exact inline d _
  simp only [Draft.inlineCode]
  split
  next =>
    -- the span sets the flag for the start of a line, so it does not matter that the space does not
    obtain ⟨hbefore, hpage, hstart⟩ := hspan (d.push [' '])
    refine ⟨hbefore, ?_, ?_⟩
    · rw [hpage]
      simp [push]
    · have hne := codeSpan_ne_nil value
      have hlast : (' ' :: codeSpan value).getLast? = (codeSpan value).getLast? :=
        List.getLast?_append_of_ne_nil [' '] hne
      rw [hstart]
      simp [hne, hlast]
  next => exact hspan d

end Adds
end Draft

open Draft

theorem adds_leaf {l : Leaf} (h : isInline (.leaf l) = true) (d : Draft) :
    Adds (phrasingText (d.endsWith '`') (.leaf l)) d (writeNode (.leaf l) d) := by
  rw [writeNode]
  cases l with
  | text value => exact Adds.inline d _
  | inlineCode value => exact Adds.inlineCode d _
  | lineBreak => exact ⟨rfl, rfl, rfl⟩
  | image i => exact Adds.inline d _
  | inlineMath value => exact Adds.inline d _
  | _ => cases h

/-- One parent, from what its children write. -/
theorem adds_parent {p : Parent} {cs : List Node} (h : isInline (.parent p cs) = true)
    (hcs : ∀ d : Draft, Adds (phrasingTextAll (d.endsWith '`') cs) d (writeInlines cs d))
    (d : Draft) :
    Adds (phrasingText (d.endsWith '`') (.parent p cs)) d (writeNode (.parent p cs) d) := by
  have hafter {s : List Char} (hs : s ≠ []) (hlast : s.getLast? ≠ some '`') (d : Draft) :
      Adds (phrasingTextAll false cs) (d.inline s) (writeInlines cs (d.inline s)) := by
    have hcs := hcs (d.inline s)
    rw [(Adds.inline d s).endsWith_tick] at hcs
    have htick : endsInTick (d.endsWith '`') s = false := by
      simp [endsInTick, hs, hlast]
    rwa [htick] at hcs
  cases p with
  | emphasis =>
    simp only [writeNode, phrasingText]
    exact Adds.wrapped ['*'] ['*'] d (hafter (by decide) (by decide) d)
  | strong =>
    simp only [writeNode, phrasingText]
    exact Adds.wrapped ['*', '*'] ['*', '*'] d (hafter (by decide) (by decide) d)
  | link url title =>
    simp only [writeNode, phrasingText]
    exact Adds.wrapped ['['] _ d (hafter (by decide) (by decide) d)
  | crossReference kind target =>
    cases heq : target.identifier <|> target.label with
    | none =>
      simp only [writeNode, phrasingText, heq]
      exact ((Adds.refl d).report _ _).trans (hcs (d.report _ _))
    | some destination =>
      simp only [writeNode, phrasingText, heq]
      refine Adds.wrapped ['['] _ d ?_
      split
      · exact Adds.inline _ _
      · exact hafter (by decide) (by decide) d
  | role name value =>
    cases value with
    | none => exact hcs d
    | some value =>
      have hname := Adds.inline d (['\x7b'] ++ name.toList ++ ['\x7d'])
      have hvalue := Adds.inlineCode (d.inline (['\x7b'] ++ name.toList ++ ['\x7d'])) value.toList
      rw [hname.endsWith_tick, endsInTick_append] at hvalue
      exact hname.trans hvalue
  | _ => cases h

mutual

theorem adds_writeNode : (n : Node) → n.Everywhere (isInline · = true) →
    ∀ d : Draft, Adds (phrasingText (d.endsWith '`') n) d (writeNode n d)
  | .leaf l, h => adds_leaf (Node.everywhere_leaf.mp h)
  | .parent p cs, h => by
    obtain ⟨hp, hcs⟩ := Node.everywhere_parent.mp h
    exact adds_parent hp (adds_writeInlines cs hcs)

/-- Phrasing content adds its text. -/
theorem adds_writeInlines : (ns : List Node) → (∀ n ∈ ns, n.Everywhere (isInline · = true)) →
    ∀ d : Draft, Adds (phrasingTextAll (d.endsWith '`') ns) d (writeInlines ns d)
  | [], _, d => by
    rw [writeInlines]
    exact Adds.refl d
  | n :: ns, h, d => by
    obtain ⟨hn, hns⟩ := List.forall_mem_cons.mp h
    have hfirst := adds_writeNode n hn d
    have hrest := adds_writeInlines ns hns (writeNode n d)
    rw [hfirst.endsWith_tick] at hrest
    rw [writeInlines, phrasingTextAll]
    exact hfirst.trans hrest

end

theorem page_phrasing {ns : List Node} (h : ∀ n ∈ ns, n.Everywhere (isInline · = true)) :
    (writeInlines ns {}).page = (phrasingTextAll false ns).reverse :=
  (adds_writeInlines ns h {}).page_eq

/-! Documents of one node, and a paragraph, which is written without knowing anything of its
surroundings. -/

theorem draftOf_singleton {separators : Bool} {n : Node} (h : isInline n = false)
    (hbreak : blockBreak separators false n = []) :
    draftOf separators [n] = (writeNode n {}).newline := by
  rw [draftOf, writeTop, writeTop, hbreak]
  exact congrArg Draft.newline (asBlock_of_not_isInline h {})

theorem draftOf_paragraph (separators : Bool) (ns : List Node) :
    draftOf separators [.paragraph ns] = ((writeInlines ns {}).push ['\n']).atLineStart := by
  rw [draftOf_singleton rfl rfl, Node.paragraph, writeNode]
  rfl

theorem write_phrasing {ns : List Node} (h : ∀ n ∈ ns, n.Everywhere (isInline · = true))
    (separators : Bool) :
    write separators [.paragraph ns] = String.ofList (phrasingTextAll false ns ++ ['\n']) := by
  simp [write, draftOf_paragraph, Draft.atLineStart, Draft.push, page_phrasing h]

end MystNotebook.Markdown
