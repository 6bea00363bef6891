import Mathlib.Data.List.Infix
import MystNotebook.Text.Line

/-! Runs of one character in a text. A run ends at any other character, so the longest run of a text
that is put together is that of one of its parts, unless a part ends in the character itself. -/
namespace MystNotebook.Text

section
variable {c : Char}

theorem longestRun_cons_self (m : Nat) (s : List Char) :
    longestRun c m (c :: s) = longestRun c (m + 1) s := by
  rw [longestRun, if_pos rfl]

theorem longestRun_cons_of_ne {x : Char} (hx : x ≠ c) (m : Nat) (s : List Char) :
    longestRun c m (x :: s) = max m (longestRun c 0 s) := by
  rw [longestRun, if_neg hx]

theorem longestRun_append_cons {x : Char} (hx : x ≠ c) (m : Nat) (s t : List Char) :
    longestRun c m (s ++ x :: t) = max (longestRun c m s) (longestRun c 0 t) := by
  induction s generalizing m with
  | nil => exact longestRun_cons_of_ne hx m t
  | cons y s ih =>
    by_cases hy : y = c
    · subst hy
      rw [List.cons_append, longestRun_cons_self, longestRun_cons_self, ih]
    · rw [List.cons_append, longestRun_cons_of_ne hy, longestRun_cons_of_ne hy, ih, max_assoc]

theorem longestRun_mono {m n : Nat} (h : m ≤ n) (s : List Char) :
    longestRun c m s ≤ longestRun c n s := by
  induction s generalizing m n with
  | nil => exact h
  | cons x s ih =>
    by_cases hx : x = c
    · subst hx
      rw [longestRun_cons_self, longestRun_cons_self]
      exact ih (Nat.succ_le_succ h)
    · rw [longestRun_cons_of_ne hx, longestRun_cons_of_ne hx]
      omega

theorem longestRun_succ_le (m : Nat) (s : List Char) :
    longestRun c (m + 1) s ≤ longestRun c m s + 1 := by
  induction s generalizing m with
  | nil => exact le_refl (m + 1)
  | cons x s ih =>
    by_cases hx : x = c
    · subst hx
      rw [longestRun_cons_self, longestRun_cons_self]
      exact ih (m + 1)
    · rw [longestRun_cons_of_ne hx, longestRun_cons_of_ne hx]
      omega

theorem le_longestRun (m : Nat) (s : List Char) : m ≤ longestRun c m s := by
  induction s generalizing m with
  | nil => exact le_refl m
  | cons x s ih =>
    by_cases hx : x = c
    · subst hx
      rw [longestRun_cons_self]
      exact (Nat.le_succ m).trans (ih (m + 1))
    · rw [longestRun_cons_of_ne hx]
      exact le_max_left _ _

theorem longestRun_le_append_left (m : Nat) (s t : List Char) :
    longestRun c m s ≤ longestRun c m (s ++ t) := by
  induction s generalizing m with
  | nil => exact le_longestRun m t
  | cons x s ih =>
    by_cases hx : x = c
    · subst hx
      rw [List.cons_append, longestRun_cons_self, longestRun_cons_self]
      exact ih (m + 1)
    · rw [List.cons_append, longestRun_cons_of_ne hx, longestRun_cons_of_ne hx]
      have := ih 0
      omega

theorem longestRun_le_append_right (m : Nat) (s t : List Char) :
    longestRun c 0 t ≤ longestRun c m (s ++ t) := by
  induction s generalizing m with
  | nil => exact longestRun_mono (Nat.zero_le m) t
  | cons x s ih =>
    by_cases hx : x = c
    · subst hx
      rw [List.cons_append, longestRun_cons_self]
      exact ih (m + 1)
    · rw [List.cons_append, longestRun_cons_of_ne hx]
      exact (ih 0).trans (le_max_right _ _)

theorem longestRun_of_isInfix {s t : List Char} (h : s <:+: t) :
    longestRun c 0 s ≤ longestRun c 0 t := by
  obtain ⟨u, v, rfl⟩ := h
  rw [List.append_assoc]
  exact (longestRun_le_append_left 0 s v).trans (longestRun_le_append_right 0 u (s ++ v))

theorem longestRun_of_not_mem {s : List Char} (h : c ∉ s) (m : Nat) : longestRun c m s = m := by
  induction s generalizing m with
  | nil => rfl
  | cons x s ih =>
    rw [List.mem_cons, not_or] at h
    rw [longestRun_cons_of_ne (Ne.symm h.1), ih h.2, Nat.max_zero]

theorem longestRun_append_of_not_mem {s : List Char} (hs : s ≠ []) (h : c ∉ s) (m : Nat)
    (t : List Char) : longestRun c m (s ++ t) = max m (longestRun c 0 t) := by
  obtain ⟨s, x, rfl⟩ := (List.eq_nil_or_concat s).resolve_left hs
  rw [List.concat_eq_append, List.mem_append, List.mem_singleton, not_or] at h
  rw [List.concat_eq_append, List.append_assoc, List.singleton_append,
    longestRun_append_cons (Ne.symm h.2), longestRun_of_not_mem h.1]

theorem longestRun_replicate (n m : Nat) : longestRun c m (List.replicate n c) = m + n := by
  induction n generalizing m with
  | zero => rfl
  | succ n ih =>
    rw [List.replicate_succ, longestRun_cons_self, ih]
    omega

end

/-- All runs of `c` are shorter than `k`. -/
def RunsBelow (c : Char) (k : Nat) (s : List Char) : Prop := longestRun c 0 s < k

/-- All runs of `c` are shorter than `k`, also in any text that is put behind this one. -/
structure Sealed (c : Char) (k : Nat) (s : List Char) : Prop where
  runs : RunsBelow c k s
  last : s.getLast? ≠ some c

section
variable {c : Char} {k : Nat}

theorem RunsBelow.of_isInfix {s t : List Char} (h : RunsBelow c k t) (hs : s <:+: t) :
    RunsBelow c k s :=
  (longestRun_of_isInfix hs).trans_lt h

theorem RunsBelow.mono {s : List Char} {l : Nat} (hle : k ≤ l) (h : RunsBelow c k s) :
    RunsBelow c l s :=
  Nat.lt_of_lt_of_le h hle

theorem RunsBelow.append_cons {x : Char} {s t : List Char} (hs : RunsBelow c k s) (hx : x ≠ c)
    (ht : RunsBelow c k t) : RunsBelow c k (s ++ x :: t) := by
  rw [RunsBelow, longestRun_append_cons hx]
  exact max_lt hs ht

theorem RunsBelow.append_of_not_mem {s t : List Char} (hs : c ∉ s) (ht : RunsBelow c k t) :
    RunsBelow c k (s ++ t) := by
  by_cases hempty : s = []
  · rwa [hempty]
  · rw [RunsBelow, longestRun_append_of_not_mem hempty hs, Nat.zero_max]
    exact ht

theorem RunsBelow.not_infix_replicate {s : List Char} (h : RunsBelow c k s) :
    ¬ List.replicate k c <:+: s := by
  intro hinfix
  have hle := longestRun_of_isInfix (c := c) hinfix
  rw [longestRun_replicate, Nat.zero_add] at hle
  exact absurd h (Nat.not_lt.mpr hle)

theorem runsBelow_of_not_mem (hk : 0 < k) {s : List Char} (h : c ∉ s) : RunsBelow c k s := by
  rw [RunsBelow, longestRun_of_not_mem h]
  exact hk

theorem not_mem_of_runsBelow_one {s : List Char} (h : RunsBelow c 1 s) : c ∉ s := by
  intro hmem
  have hinfix : List.replicate 1 c <:+: s := List.singleton_infix_iff _ _ |>.mpr hmem
  exact h.not_infix_replicate hinfix

theorem sealed_of_not_mem (hk : 0 < k) {s : List Char} (h : c ∉ s) : Sealed c k s :=
  ⟨runsBelow_of_not_mem hk h, fun hlast => h (List.mem_of_getLast? hlast)⟩

theorem RunsBelow.sealed_append_cons {x : Char} {s t : List Char} (hs : RunsBelow c k s)
    (hx : x ≠ c) (ht : Sealed c k t) : Sealed c k (s ++ x :: t) := by
  constructor
  · exact hs.append_cons hx ht.runs
  · cases t with
    | nil => simpa using hx
    | cons y t =>
      have hlast := ht.last
      rwa [List.getLast?_append_of_ne_nil _ (by simp), List.getLast?_cons_cons]

theorem Sealed.cons {x : Char} {s : List Char} (hx : x ≠ c) (hs : Sealed c k s) :
    Sealed c k (x :: s) :=
  RunsBelow.sealed_append_cons (s := []) (Nat.zero_lt_of_lt hs.runs) hx hs

theorem Sealed.append {s t : List Char} (hs : Sealed c k s) (ht : Sealed c k t) :
    Sealed c k (s ++ t) := by
  rcases List.eq_nil_or_concat s with rfl | ⟨s, x, rfl⟩
  · exact ht
  · rw [List.concat_eq_append] at hs ⊢
    have hx : x ≠ c := by simpa using hs.last
    have hinit : RunsBelow c k s := hs.runs.of_isInfix (List.prefix_append s [x]).isInfix
    rw [List.append_assoc, List.singleton_append]
    exact hinit.sealed_append_cons hx ht

theorem Sealed.of_append {s t : List Char} (h : Sealed c k (s ++ t)) : Sealed c k t := by
  refine ⟨h.runs.of_isInfix (List.suffix_append s t).isInfix, ?_⟩
  cases t with
  | nil => simp
  | cons x t =>
    have hlast := h.last
    rwa [List.getLast?_append_of_ne_nil _ (List.cons_ne_nil x t)] at hlast

theorem sealed_flatMap {α : Type} (hk : 0 < k) {l : List α} {f : α → List Char}
    (h : ∀ a ∈ l, Sealed c k (f a)) : Sealed c k (l.flatMap f) := by
  induction l with
  | nil => exact sealed_of_not_mem hk List.not_mem_nil
  | cons a l ih =>
    rw [List.forall_mem_cons] at h
    exact h.1.append (ih h.2)

/-! Rewriting character by character. -/

theorem longestRun_replace {x : Char} (hx : x ≠ c) {image : List Char} (himage : image ≠ [])
    (hc : c ∉ image) (m : Nat) (s : List Char) :
    longestRun c m (replace x image s) = longestRun c m s := by
  induction s generalizing m with
  | nil => rfl
  | cons y s ih =>
    rw [replace, List.flatMap_cons, ← replace]
    split
    next hy =>
      rw [hy, longestRun_append_of_not_mem himage hc, longestRun_cons_of_ne hx, ih]
    next =>
      rw [List.singleton_append]
      by_cases hy : y = c
      · subst hy
        rw [longestRun_cons_self, longestRun_cons_self, ih]
      · rw [longestRun_cons_of_ne hy, longestRun_cons_of_ne hy, ih]

theorem Sealed.replace {x : Char} (hx : x ≠ c) {image : List Char} (himage : image ≠ [])
    (hc : c ∉ image) {s : List Char} (hs : Sealed c k s) : Sealed c k (replace x image s) := by
  constructor
  · rw [RunsBelow, longestRun_replace hx himage hc]
    exact hs.runs
  · rcases List.eq_nil_or_concat s with rfl | ⟨s, y, rfl⟩
    · exact hs.last
    · have hy : y ≠ c := by simpa using hs.last
      have hlast : c ∉ (if y = x then image else [y]) := by
        split
        · exact hc
        · simpa using Ne.symm hy
      have hne : (if y = x then image else [y]) ≠ [] := by
        split
        · exact himage
        · simp
      rw [List.concat_eq_append, Text.replace, List.flatMap_append, List.flatMap_singleton,
        List.getLast?_append_of_ne_nil _ hne]
      exact fun h => hlast (List.mem_of_getLast? h)

end
end MystNotebook.Text
