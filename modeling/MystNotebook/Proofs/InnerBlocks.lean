import Mathlib.Data.List.Induction
import MystNotebook.Proofs.BlockBreaks
import MystNotebook.Proofs.LineStarts
import MystNotebook.Proofs.WrittenRuns

/-! Block breaks inside a text. Only those in front of a text are stripped, so a block leaves its
break in the text exactly if something has been written before it. -/
namespace MystNotebook
open Text

/-! Stripping texts side by side. -/

/-- A text that is made of whole lines. -/
def WholeLines (s : List Char) : Prop := s = [] ∨ s.getLast? = some '\n'

theorem WholeLines.of_append {s t : List Char} (h : WholeLines (s ++ t)) : WholeLines t := by
  by_cases ht : t = []
  · exact .inl ht
  · right
    rcases h with h | h
    · exact absurd (List.append_eq_nil_iff.mp h).2 ht
    · rwa [List.getLast?_append_of_ne_nil s ht] at h

theorem WholeLines.append {s t : List Char} (hs : WholeLines s) (ht : WholeLines t) :
    WholeLines (s ++ t) := by
  rcases ht with rfl | ht
  · rwa [List.append_nil]
  · exact .inr (by rw [List.getLast?_append, ht, Option.some_or])

theorem WholeLines.newline_mem {s : List Char} (h : WholeLines s) (hs : s ≠ []) : '\n' ∈ s :=
  List.mem_of_getLast? (h.resolve_left hs)

theorem exists_firstLine {s : List Char} (h : '\n' ∈ s) :
    ∃ line rest, '\n' ∉ line ∧ s = line ++ '\n' :: rest := by
  induction s with
  | nil => cases h
  | cons c s ih =>
    by_cases hc : c = '\n'
    · exact ⟨[], s, List.not_mem_nil, by rw [hc]; rfl⟩
    · obtain ⟨line, rest, hline, rfl⟩ := ih (List.mem_of_ne_of_mem (Ne.symm hc) h)
      refine ⟨c :: line, rest, ?_, rfl⟩
      rw [List.mem_cons, not_or]
      exact ⟨Ne.symm hc, hline⟩

/-- Behind whole lines, stripping goes on only if they have been stripped to nothing. -/
theorem stripBlockBreaks_append {s : List Char} (h : WholeLines s) (t : List Char) :
    stripBlockBreaks (s ++ t) =
      if stripBlockBreaks s = [] then stripBlockBreaks t else stripBlockBreaks s ++ t := by
  fun_induction stripBlockBreaks s with
  | case1 => rfl
  | case2 c rest hc ih =>
    have hrest : WholeLines rest := h.of_append (s := [c])
    rw [List.cons_append, stripBlockBreaks_lineBreak hc]
    exact ih hrest
  | case3 line hc ih =>
    have hline : WholeLines line := h.of_append (s := ['+', '+', '+'])
    have hne : line ≠ [] := by
      rintro rfl
      rcases h with h | h <;> cases h
    obtain ⟨first, rest, hfirst, rfl⟩ := exists_firstLine (hline.newline_mem hne)
    rw [drop_dropWhile_line hfirst] at ih ⊢
    have hrest : WholeLines rest := hline.of_append.of_append (s := ['\n'])
    show stripBlockBreaks ('+' :: '+' :: '+' :: (first ++ '\n' :: rest ++ t)) = _
    rw [List.append_assoc, List.cons_append, stripBlockBreaks_markerLine hfirst]
    exact ih hrest
  | case4 c rest hc hno =>
    rw [if_neg (List.cons_ne_nil c rest), List.cons_append]
    refine stripBlockBreaks_eq_self hc ?_
    rintro ⟨u, hu⟩
    -- the whole lines end in a newline, so a break cannot go on into what follows them
    obtain ⟨rfl, hrest⟩ : '+' = c ∧ '+' :: '+' :: u = rest ++ t := List.cons.inj hu
    have hlast := h.resolve_left (List.cons_ne_nil _ rest)
    rcases rest with - | ⟨x, - | ⟨y, rest⟩⟩
    · cases hlast
    · obtain ⟨rfl, -⟩ := List.cons.inj hrest
      cases hlast
    · obtain ⟨rfl, hnext⟩ := List.cons.inj hrest
      obtain ⟨rfl, -⟩ := List.cons.inj hnext
      exact hno rest rfl rfl

/-! Documents, block by block. -/

namespace Markdown
open Draft

theorem writeTop_append (separators started : Bool) (xs ys : List Node) (d : Draft) :
    writeTop separators started (xs ++ ys) d =
      writeTop separators (started || !xs.isEmpty) ys (writeTop separators started xs d) := by
  induction xs generalizing started d with
  | nil => simp [writeTop]
  | cons x xs ih => simp [writeTop, ih]

/-- The text of a document, as characters. -/
def textOf (ns : List Node) : List Char := (write true ns).toList

theorem textOf_eq (ns : List Node) : textOf ns = (draftOf true ns).page.reverse :=
  toList_write true ns

theorem wholeLines_textOf (ns : List Node) : WholeLines (textOf ns) := by
  rw [textOf_eq]
  rcases fresh_draftOf true ns with hempty | hnewline
  · exact .inl (by rw [hempty, List.reverse_nil])
  · exact .inr (by rw [List.getLast?_reverse, hnewline])

/-- What stands before the last node: the other nodes, and perhaps an empty line. -/
theorem exists_gap (ns : List Node) :
    ∃ gap, (gap = [] ∨ gap = ['\n']) ∧
      (if !ns.isEmpty then (writeTop true false ns {}).blankLine
        else writeTop true false ns {}).page = gap ++ (draftOf true ns).page := by
  cases ns with
  | nil => exact ⟨[], .inl rfl, rfl⟩
  | cons n ns =>
    rw [List.isEmpty_cons, Bool.not_false, if_pos rfl, draftOf]
    simp only [blankLine]
    split
    · exact ⟨['\n'], .inr rfl, rfl⟩
    · exact ⟨[], .inl rfl, rfl⟩

/-- One more node at the end: an empty line, the break of a block, and a text without any plus. -/
theorem textOf_concat (ns : List Node) {n : Node} (hn : n.Everywhere (Node.Quiet '+' 1)) :
    ∃ gap text, (gap = [] ∨ gap = ['\n']) ∧ '+' ∉ text ∧
      textOf (ns ++ [n]) = textOf ns ++ (gap ++ (blockBreak true (!ns.isEmpty) n ++ text)) := by
  have hm : IsMark '+' 1 := .inr ⟨rfl, Nat.one_pos⟩
  obtain ⟨gap, hgap, hpage⟩ := exists_gap ns
  have hwrites := (writes_of_quiet hm n hn).1
  obtain ⟨text, htext, hsealed⟩ := (writes_asBlock hm hn.self hwrites (Grows.refl hm
    ((if !ns.isEmpty then (writeTop true false ns {}).blankLine
      else writeTop true false ns {}).push (blockBreak true (!ns.isEmpty) n)))).newline hm
  refine ⟨gap, text, hgap, not_mem_of_runsBelow_one hsealed.runs, ?_⟩
  rw [textOf_eq, textOf_eq, draftOf, writeTop_append, Bool.false_or]
  simp only [writeTop]
  rw [htext, push, hpage]
  simp only [List.reverse_append, List.reverse_reverse, List.append_assoc]
  rcases hgap with rfl | rfl <;> rfl

/-- What is left of a text when one more node has been written. -/
theorem strip_textOf_concat (ns : List Node) {n : Node} (hn : n.Everywhere (Node.Quiet '+' 1)) :
    ∃ gap text, (gap = [] ∨ gap = ['\n']) ∧ '+' ∉ text ∧
      stripBlockBreaks (textOf (ns ++ [n])) =
        if stripBlockBreaks (textOf ns) = [] then stripBlockBreaks text
        else stripBlockBreaks (textOf ns) ++ (gap ++ (blockBreak true true n ++ text)) := by
  obtain ⟨gap, text, hgap, htext, heq⟩ := textOf_concat ns hn
  refine ⟨gap, text, hgap, htext, ?_⟩
  have hskip (s : List Char) : stripBlockBreaks (gap ++ s) = stripBlockBreaks s := by
    rcases hgap with rfl | rfl
    · rfl
    · exact stripBlockBreaks_lineBreak (by decide) s
  rw [heq, stripBlockBreaks_append (wholeLines_textOf ns), hskip, stripBlockBreaks_anyBreak]
  split
  · rfl
  next hne =>
    have hns : ns ≠ [] := by
      rintro rfl
      exact hne (by rw [textOf_eq]; exact stripBlockBreaks.eq_1)
    rw [List.isEmpty_eq_false_iff.mpr hns, Bool.not_false]

theorem exists_block_of_mem_blockBreak {c : Char} {separators started : Bool} {n : Node}
    (h : c ∈ blockBreak separators started n) :
    ∃ kind data target cs, n = .parent (.block kind data target) cs := by
  unfold blockBreak at h
  split at h
  · exact ⟨_, _, _, _, rfl⟩
  · exact ⟨_, _, _, _, rfl⟩
  · cases h

theorem exists_blockBreak_eq (kind : Option String) (data : Option Json.Fields) (target : Target)
    (cs : List Node) : ∃ rest,
      blockBreak true true (.parent (.block kind data target) cs) = '+' :: '+' :: '+' :: rest := by
  cases data with
  | none => exact ⟨['\n', '\n'], rfl⟩
  | some data =>
    simp only [blockBreak]
    split
    · exact ⟨['\n', '\n'], rfl⟩
    · exact ⟨' ' :: ((Json.Value.ofFields data).compact ++ ['\n', '\n']), rfl⟩

end Markdown

/-- Among the nodes that a text is written from there is a block, and what stands before it leaves
something in the text. -/
def HasInnerBlock (ns : List Node) : Prop :=
  ∃ before kind data target cs after, ns = before ++ .parent (.block kind data target) cs :: after ∧
    stripBlockBreaks (Markdown.write true before).toList ≠ []

section
open Markdown
variable {ns : List Node}

theorem HasInnerBlock.append (h : HasInnerBlock ns) (ns' : List Node) :
    HasInnerBlock (ns ++ ns') := by
  obtain ⟨before, kind, data, target, cs, after, rfl, hbefore⟩ := h
  refine ⟨before, kind, data, target, cs, after ++ ns', ?_, hbefore⟩
  rw [List.append_assoc, List.cons_append]

theorem hasInnerBlock_of_plus_mem (h : ∀ n ∈ ns, n.Everywhere (Node.Quiet '+' 1))
    (hplus : '+' ∈ stripBlockBreaks (textOf ns)) : HasInnerBlock ns := by
  induction ns using List.reverseRecOn with
  | nil =>
    rw [textOf_eq] at hplus
    cases (stripBlockBreaks_isSuffix _).subset hplus
  | append_singleton ns n ih =>
    obtain ⟨hns, hn⟩ := List.forall_mem_append.mp h
    obtain ⟨gap, text, hgap, htext, heq⟩ :=
      strip_textOf_concat ns (List.forall_mem_singleton.mp hn)
    rw [heq] at hplus
    split at hplus
    · exact absurd ((stripBlockBreaks_isSuffix text).subset hplus) htext
    next hne =>
      simp only [List.mem_append] at hplus
      rcases hplus with hplus | hplus | hplus | hplus
      · exact (ih hns hplus).append [n]
      · rcases hgap with rfl | rfl <;> simp at hplus
      · obtain ⟨kind, data, target, cs, rfl⟩ := exists_block_of_mem_blockBreak hplus
        exact ⟨ns, kind, data, target, cs, [], rfl, hne⟩
      · exact absurd hplus htext

/-- The break of an inner block starts a line below the first. -/
theorem exists_break_of_hasInnerBlock (h : ∀ n ∈ ns, n.Everywhere (Node.Quiet '+' 1))
    (hinner : HasInnerBlock ns) :
    ∃ front rest, stripBlockBreaks (textOf ns) = front ++ '\n' :: '+' :: '+' :: '+' :: rest := by
  obtain ⟨before, kind, data, target, cs, after, rfl, hbefore⟩ := hinner
  rw [← textOf] at hbefore
  induction after using List.reverseRecOn with
  | nil =>
    obtain ⟨-, hn⟩ := List.forall_mem_append.mp h
    obtain ⟨gap, text, hgap, -, heq⟩ :=
      strip_textOf_concat before (List.forall_mem_singleton.mp hn)
    obtain ⟨rest, hbreak⟩ := exists_blockBreak_eq kind data target cs
    -- what is left of the text before the block is made of whole lines
    obtain ⟨skipped, hsuffix⟩ := stripBlockBreaks_isSuffix (textOf before)
    have hwhole : WholeLines (stripBlockBreaks (textOf before)) := by
      have hlines := wholeLines_textOf before
      rw [← hsuffix] at hlines
      exact hlines.of_append
    obtain ⟨front, hfront⟩ := List.getLast?_eq_some_iff.mp (hwhole.resolve_left hbefore)
    refine ⟨front ++ gap, rest ++ text, ?_⟩
    rw [heq, if_neg hbefore, hbreak, hfront]
    rcases hgap with rfl | rfl <;> simp
  | append_singleton after n ih =>
    rw [← List.cons_append, ← List.append_assoc] at h ⊢
    obtain ⟨hinit, hn⟩ := List.forall_mem_append.mp h
    obtain ⟨gap, text, -, -, heq⟩ :=
      strip_textOf_concat (before ++ .parent (.block kind data target) cs :: after)
        (List.forall_mem_singleton.mp hn)
    obtain ⟨front, rest, hstripped⟩ := ih hinit
    refine ⟨front, rest ++ (gap ++ (blockBreak true true n ++ text)), ?_⟩
    rw [heq, hstripped, if_neg (by simp)]
    simp

end
end MystNotebook
