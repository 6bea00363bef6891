import MystNotebook.Proofs.PhrasingText
import MystNotebook.Proofs.TextEndings

/-! Drafts that a writer cannot tell apart. It looks back at the last character, at an empty line
and at whether anything has been written, so drafts that are alike in these take the same text.
Drafts where a line starts need not be alike, but those below an empty line are. -/
namespace MystNotebook.Markdown
open Text

namespace Draft

/-- All that the draft knows of what has been written, the latest character first. -/
def known (d : Draft) : List Char := d.page ++ d.before

theorem isEmpty_eq (d : Draft) : d.isEmpty = d.known.isEmpty := by
  unfold isEmpty known
  cases d.page <;> rfl

theorem endsWith_known (d : Draft) (c : Char) : d.endsWith c = (d.known.head? == some c) :=
  endsWith_eq d c

theorem endsWithBlankLine_known (d : Draft) :
    d.endsWithBlankLine = (d.known.take 2 == ['\n', '\n']) := by
  unfold endsWithBlankLine recent known
  rcases d.page with _ | ⟨a, _ | ⟨b, page⟩⟩
  · rcases d.before with _ | ⟨a, _ | ⟨b, before⟩⟩ <;> simp
  · rcases d.before with _ | ⟨b, before⟩ <;> simp
  · simp

/-- The second draft is the first with a text behind it. -/
structure Extends (s : List Char) (d d' : Draft) : Prop where
  before : d'.before = d.before
  page : d'.page = s.reverse ++ d.page

section
variable {s t : List Char} {d d' d'' : Draft}

theorem Extends.refl (d : Draft) : Extends [] d d := ⟨rfl, rfl⟩

theorem Extends.trans (h : Extends s d d') (h' : Extends t d' d'') : Extends (s ++ t) d d'' := by
  constructor
  · rw [h'.before, h.before]
  · rw [h'.page, h.page, List.reverse_append, List.append_assoc]

theorem extends_push (d : Draft) (s : List Char) : Extends s d (d.push s) := ⟨rfl, rfl⟩

theorem Extends.known (h : Extends s d d') : d'.known = s.reverse ++ d.known := by
  rw [Draft.known, Draft.known, h.page, h.before, List.append_assoc]

theorem Extends.isEmpty_eq_false (h : Extends s d d') (hne : s ≠ [] ∨ d.isEmpty = false) :
    d'.isEmpty = false := by
  rw [isEmpty_eq, List.isEmpty_eq_false_iff] at hne ⊢
  rw [h.known, Ne, List.append_eq_nil_iff, List.reverse_eq_nil_iff, not_and_or]
  exact hne

theorem Extends.eq (h : Extends s d d') (h' : Extends t d d') : s = t := by
  have hpage : s.reverse ++ d.page = t.reverse ++ d.page := h.page.symm.trans h'.page
  exact List.reverse_injective (List.append_cancel_right hpage)

end

/-! Drafts that look the same. -/

/-- The drafts look the same to whoever writes on. -/
structure Alike (d d' : Draft) : Prop where
  lineStart : d.lineStart = d'.lineStart
  head? : d.known.head? = d'.known.head?
  endsWithBlankLine : d.endsWithBlankLine = d'.endsWithBlankLine

namespace Alike
variable {d d' d'' e e' : Draft} {s : List Char}

theorem symm (h : Alike d d') : Alike d' d :=
  ⟨h.lineStart.symm, h.head?.symm, h.endsWithBlankLine.symm⟩

theorem trans (h : Alike d d') (h' : Alike d' d'') : Alike d d'' :=
  ⟨h.lineStart.trans h'.lineStart, h.head?.trans h'.head?,
    h.endsWithBlankLine.trans h'.endsWithBlankLine⟩

theorem isEmpty (h : Alike d d') : d.isEmpty = d'.isEmpty := by
  have hhead := h.head?
  rw [isEmpty_eq, isEmpty_eq]
  cases hd : d.known <;> cases hd' : d'.known <;> simp_all

theorem endsWith (h : Alike d d') (c : Char) : d.endsWith c = d'.endsWith c := by
  rw [endsWith_known, endsWith_known, h.head?]

/-- The flag apart, what follows leaves them alike. -/
theorem of_extends (h : Alike d d') (he : Extends s d e) (he' : Extends s d' e')
    (hstart : e.lineStart = e'.lineStart) : Alike e e' := by
  have hblank := h.endsWithBlankLine
  rw [endsWithBlankLine_known, endsWithBlankLine_known] at hblank
  refine ⟨hstart, ?_, ?_⟩
  · rw [he.known, he'.known, List.head?_append, List.head?_append, h.head?]
  · rw [endsWithBlankLine_known, endsWithBlankLine_known, he.known, he'.known]
    rcases s.reverse with _ | ⟨a, _ | ⟨b, r⟩⟩
    · exact hblank
    · -- one character more, so the last one before it counts
      have hhead := h.head?
      cases hd : d.known <;> cases hd' : d'.known <;> simp_all
    · rfl

end Alike

/-- The same text has been added to two drafts, and they are alike. -/
def Agree (d d' e e' : Draft) : Prop := ∃ s, Extends s d e ∧ Extends s d' e' ∧ Alike e e'

theorem Alike.agree {d d' : Draft} (h : Alike d d') : Agree d d' d d' :=
  ⟨[], .refl d, .refl d', h⟩

theorem Agree.trans {d d' e e' f f' : Draft} (h : Agree d d' e e') (h' : Agree e e' f f') :
    Agree d d' f f' := by
  obtain ⟨s, hs, hs', -⟩ := h
  obtain ⟨t, ht, ht', halike⟩ := h'
  exact ⟨s ++ t, hs.trans ht, hs'.trans ht', halike⟩

/-! Drafts where a line starts. -/

/-- A line starts, and the draft says so. -/
structure Clear (d : Draft) : Prop where
  lineStart : d.lineStart = true
  fresh : d.isEmpty = true ∨ d.endsWith '\n' = true

/-- A line starts below an empty one. -/
structure Apart (d : Draft) : Prop where
  lineStart : d.lineStart = true
  endsWithBlankLine : d.endsWithBlankLine = true

section
variable {d d' e : Draft} {s : List Char}

theorem Clear.newline (h : d.Clear) : d.newline = d := by
  rw [Draft.newline, h.lineStart]
  rfl

theorem Apart.exists_known (h : d.Apart) : ∃ r, d.known = '\n' :: '\n' :: r := by
  have hblank := h.endsWithBlankLine
  rw [endsWithBlankLine_known, beq_iff_eq] at hblank
  obtain ⟨r, hr⟩ : ['\n', '\n'] <+: d.known := hblank ▸ List.take_prefix 2 d.known
  exact ⟨r, hr.symm⟩

theorem Apart.two_le_length_known (h : d.Apart) : 2 ≤ d.known.length := by
  obtain ⟨r, hr⟩ := h.exists_known
  rw [hr]
  simp

theorem apart_of_known {r : List Char} (hstart : d.lineStart = true)
    (hknown : d.known = '\n' :: '\n' :: r) : d.Apart :=
  ⟨hstart, by rw [endsWithBlankLine_known, hknown]; rfl⟩

theorem Apart.blankLine (h : d.Apart) : d.blankLine = d := by
  have hnewline : d.newline = d := by
    rw [Draft.newline, h.lineStart]
    rfl
  simp only [Draft.blankLine, hnewline, h.endsWithBlankLine]
  rfl

theorem Apart.clear (h : d.Apart) : d.Clear := by
  obtain ⟨r, hr⟩ := h.exists_known
  exact ⟨h.lineStart, .inr (by rw [endsWith_known, hr]; rfl)⟩

theorem Clear.known (h : d.Clear) : d.known = [] ∨ d.known.head? = some '\n' :=
  h.fresh.imp (fun hempty => List.isEmpty_iff.mp (by rwa [← isEmpty_eq]))
    fun hends => beq_iff_eq.mp (by rwa [← endsWith_known])

theorem Clear.not_endsWith (h : d.Clear) {c : Char} (hc : c ≠ '\n') : d.endsWith c = false := by
  rw [endsWith_known, beq_eq_false_iff_ne]
  rcases h.known with hnil | hhead
  · simp [hnil]
  · rw [hhead]
    exact fun heq => hc (Option.some.inj heq).symm

theorem clear_of_known (hstart : d.lineStart = true)
    (hknown : d.known = [] ∨ d.known.head? = some '\n') : d.Clear :=
  ⟨hstart, hknown.imp (fun hnil => by rw [isEmpty_eq, hnil]; rfl)
    fun hhead => by rw [endsWith_known, hhead]; rfl⟩

theorem Apart.alike (h : d.Apart) (h' : d'.Apart) : Alike d d' := by
  obtain ⟨r, hr⟩ := h.exists_known
  obtain ⟨r', hr'⟩ := h'.exists_known
  refine ⟨h.lineStart.trans h'.lineStart.symm, by rw [hr, hr']; rfl, ?_⟩
  rw [h.endsWithBlankLine, h'.endsWithBlankLine]

theorem Clear.alike (h : d.Clear) (h' : d'.Clear) (hempty : d.isEmpty = d'.isEmpty)
    (hblank : d.endsWithBlankLine = d'.endsWithBlankLine) : Alike d d' := by
  refine ⟨h.lineStart.trans h'.lineStart.symm, ?_, hblank⟩
  rw [isEmpty_eq, isEmpty_eq] at hempty
  rcases h.known with hnil | hhead
  · rw [hnil, List.isEmpty_nil, eq_comm, List.isEmpty_iff] at hempty
    rw [hnil, hempty]
  · rcases h'.known with hnil | hhead'
    · rw [hnil, List.isEmpty_nil, List.isEmpty_iff] at hempty
      rw [hnil, hempty]
    · rw [hhead, hhead']

/-- Newlines leave a line to start. -/
theorem Clear.of_newlines (h : d.Clear) (hs : Newlines s) (he : Extends s d e)
    (hstart : e.lineStart = true) : e.Clear := by
  refine clear_of_known hstart ?_
  rw [he.known]
  by_cases hnil : s = []
  · rw [hnil]
    exact h.known
  · right
    rw [List.head?_append, List.head?_reverse, hs.getLast? hnil]
    rfl

theorem Apart.of_newlines (h : d.Apart) (hs : Newlines s) (he : Extends s d e)
    (hstart : e.lineStart = true) : e.Apart := by
  obtain ⟨r, hr⟩ := h.exists_known
  have hreverse : s.reverse = List.replicate s.length '\n' := by
    conv => lhs; rw [hs.eq_replicate, List.reverse_replicate]
  have hknown : e.known = List.replicate (s.length + 2) '\n' ++ r := by
    rw [he.known, hreverse, hr, ← List.replicate_append_replicate, List.append_assoc]
    rfl
  exact apart_of_known hstart hknown

/-- Two newlines make an empty line, or one where a line has been ended before. -/
theorem Clear.apart_of_newlines (h : d.Clear) (hs : Newlines s) (he : Extends s d e)
    (hstart : e.lineStart = true) (hlength : 2 ≤ s.length ∨ s ≠ [] ∧ d.isEmpty = false) :
    e.Apart := by
  have hreverse : s.reverse = List.replicate s.length '\n' := by
    conv => lhs; rw [hs.eq_replicate, List.reverse_replicate]
  have hknown := he.known
  rw [hreverse] at hknown
  rcases hlength with hlength | ⟨hne, hopen⟩
  · obtain ⟨n, hn⟩ := Nat.exists_eq_add_of_le' hlength
    rw [hn] at hknown
    exact apart_of_known hstart hknown
  · obtain ⟨n, hn⟩ := Nat.exists_eq_succ_of_ne_zero (List.length_pos_iff.mpr hne).ne'
    rw [isEmpty_eq, List.isEmpty_eq_false_iff] at hopen
    obtain ⟨r, hr⟩ := List.head?_eq_some_iff.mp (h.known.resolve_left hopen)
    have hpile : List.replicate (n + 1) '\n' ++ '\n' :: r =
        '\n' :: '\n' :: (List.replicate n '\n' ++ r) := by
      rw [List.append_cons, ← List.replicate_succ']
      rfl
    rw [hn, hr, Nat.succ_eq_add_one, hpile] at hknown
    exact apart_of_known hstart hknown

end
end Draft
end MystNotebook.Markdown
