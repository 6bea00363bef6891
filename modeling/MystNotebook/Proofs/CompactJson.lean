import Mathlib.Tactic.IntervalCases
import MystNotebook.Json.Printer
import MystNotebook.Json.Token

/-! The characters of compact JSON: numbers are made of digits, signs, points and exponent marks, no
value takes more than one line, and a quoted text is read back as it was. -/
namespace MystNotebook.Json

def isNumeric (c : Char) : Bool := c.isDigit || c == '-' || c == '+' || c == '.' || c == 'e'

/-- A text with no other characters than those of numbers. -/
def Numeric (s : List Char) : Prop := ∀ c ∈ s, isNumeric c = true

@[simp] theorem numeric_nil : Numeric [] := by
  simp [Numeric]

@[simp] theorem numeric_cons {c : Char} {s : List Char} :
    Numeric (c :: s) ↔ isNumeric c = true ∧ Numeric s :=
  List.forall_mem_cons

@[simp] theorem numeric_append {s t : List Char} : Numeric (s ++ t) ↔ Numeric s ∧ Numeric t :=
  List.forall_mem_append

@[simp] theorem numeric_toDigits (n : Nat) : Numeric (Nat.toDigits 10 n) := by
  intro c hc
  simp [isNumeric, Nat.isDigit_of_mem_toDigits (by decide) (by decide) hc]

theorem numeric_replicate (n : Nat) {c : Char} (h : isNumeric c = true) :
    Numeric (List.replicate n c) := by
  intro d hd
  rw [List.eq_of_mem_replicate hd, h]

theorem Numeric.of_subset {s t : List Char} (h : Numeric t) (hs : s ⊆ t) : Numeric s :=
  fun c hc => h c (hs hc)

namespace Double

theorem numeric_dropTrailingZeros {s : List Char} (h : Numeric s) :
    Numeric (dropTrailingZeros s) := by
  refine h.of_subset fun c hc => ?_
  rw [dropTrailingZeros, List.mem_reverse] at hc
  exact List.mem_reverse.mp ((List.dropWhile_sublist _).subset hc)

theorem numeric_shortest (bits : UInt64) : Numeric (shortest bits).digits := by
  unfold shortest
  simp only []
  split
  · exact numeric_dropTrailingZeros (numeric_toDigits _)
  · simp [isNumeric]

theorem numeric_pointed {s : List Char} (h : Numeric s) : Numeric (pointed s) := by
  unfold pointed
  split
  · simp only [numeric_cons] at h ⊢
    obtain ⟨hc, hc', hs⟩ := h
    exact ⟨hc, by decide, hc', hs⟩
  · exact h

theorem numeric_layout (layout : Layout) {d : Decimal} (h : Numeric d.digits) :
    Numeric (layout.write d) := by
  have hzeros (n : Nat) : Numeric (List.replicate n '0') := numeric_replicate n (by decide)
  have htake (n : Nat) : Numeric (d.digits.take n) := h.of_subset (List.take_subset n _)
  have hdrop (n : Nat) : Numeric (d.digits.drop n) := h.of_subset (List.drop_subset n _)
  unfold Layout.write
  split
  · split
    · simp [hzeros, h, isNumeric]
    · simp only []
      split
      · simp [hzeros, h, isNumeric]
      · simp [htake, hdrop, isNumeric]
  · simp only [numeric_append, numeric_cons, numeric_nil, numeric_toDigits, and_true]
    refine ⟨numeric_pointed h, by decide, ?_⟩
    split <;> decide

theorem numeric_write (bits : UInt64) : Numeric (write bits) := by
  have hmagnitude : Numeric
      (if isZero bits then ['0', '.', '0'] else jsonLayout.write (shortest bits)) := by
    split
    · simp [isNumeric]
    · exact numeric_layout _ (numeric_shortest bits)
  unfold write
  simp only []
  split
  · exact numeric_cons.mpr ⟨by decide, hmagnitude⟩
  · exact hmagnitude

end Double

theorem numeric_text (n : Number) : Numeric n.text := by
  cases n with
  | double bits => exact Double.numeric_write bits
  | int i =>
    cases i with
    | ofNat n => simp [Number.text, Int.repr, Nat.repr]
    | negSucc n => simp [Number.text, Int.repr, Nat.repr, isNumeric]

theorem newline_not_mem_of_numeric {s : List Char} (h : Numeric s) : '\n' ∉ s :=
  fun hn => absurd (h _ hn) (by decide)

theorem newline_not_mem_escapedChar (c : Char) : '\n' ∉ escapedChar c := by
  unfold escapedChar
  repeat' split
  all_goals simp_all [hexDigit, eq_comm]

theorem newline_not_mem_quote (s : String) : '\n' ∉ quote s := by
  simp [quote, newline_not_mem_escapedChar]

/-- An escape is read as the character that it stands for. -/
theorem foldlM_step_escapedChar (tokens : List Token) (text : List Char) (c : Char) :
    (escapedChar c).foldlM Lexer.step { tokens := tokens, pending := .string text } =
      some { tokens := tokens, pending := .string (c :: text) } := by
  by_cases hlow : c.toNat < 0x20
  · rw [← Char.ofNat_toNat c]
    generalize c.toNat = n at hlow
    interval_cases n <;> rfl
  · by_cases hquote : c = '"'
    · subst hquote
      rfl
    · by_cases hslash : c = '\\'
      · subst hslash
        rfl
      · have hplain : escapedChar c = [c] := by
          unfold escapedChar
          rw [if_neg hquote, if_neg hslash, if_neg, if_neg, if_neg, if_neg, if_neg, if_neg hlow] <;>
            (rintro rfl; exact hlow (by decide))
        simp [hplain, Lexer.step, hquote, hslash, hlow]

/-- A quoted text is read as one token. -/
theorem foldlM_step_quote (tokens : List Token) (s : String) :
    (quote s).foldlM Lexer.step { tokens := tokens, pending := .nothing } =
      some { tokens := .scalar (.string s) :: tokens, pending := .nothing } := by
  have hchars (chars text : List Char) :
      (chars.flatMap escapedChar).foldlM Lexer.step { tokens := tokens, pending := .string text } =
        some { tokens := tokens, pending := .string (chars.reverse ++ text) } := by
    induction chars generalizing text with
    | nil => rfl
    | cons c chars ih =>
      rw [List.flatMap_cons, List.foldlM_append, foldlM_step_escapedChar]
      simpa using ih (c :: text)
  have hopen : Lexer.step { tokens := tokens, pending := .nothing } '"' =
      some { tokens := tokens, pending := .string [] } := rfl
  rw [quote, List.append_assoc, List.singleton_append, List.foldlM_cons, hopen]
  change (List.foldlM _ _ _ : Option Lexer) = _
  rw [List.foldlM_append, hchars]
  simp [Lexer.step, Lexer.emit]

theorem quote_injective : Function.Injective quote := fun s t h => by
  have hs := foldlM_step_quote [] s
  rw [h, foldlM_step_quote] at hs
  simpa [eq_comm] using hs

namespace Value

/-- The fields of an object stand between commas. -/
theorem compactFields_eq_intercalate (fields : List (String × Value)) :
    compactFields fields =
      [','].intercalate (fields.map fun e => quote e.1 ++ [':'] ++ compact e.2) := by
  induction fields with
  | nil => rfl
  | cons e fields ih =>
    cases fields with
    | nil => simp [compactFields]
    | cons e' fields =>
      rw [compactFields, ih]
      · simp only [List.map_cons, List.intercalate_cons_cons]
      · exact List.cons_ne_nil e' fields

mutual

theorem newline_not_mem_compact : (v : Value) → '\n' ∉ compact v
  | .null => by simp [compact]
  | .bool b => by cases b <;> simp [compact]
  | .number n => by
    rw [compact]
    exact newline_not_mem_of_numeric (numeric_text n)
  | .string s => by
    rw [compact]
    exact newline_not_mem_quote s
  | .array items => by simp [compact, newline_not_mem_compactItems items]
  | .object fields => by simp [compact, newline_not_mem_compactFields fields]

theorem newline_not_mem_compactItems : (vs : List Value) → '\n' ∉ compactItems vs
  | [] => by simp [compactItems]
  | [v] => by simp [compactItems, newline_not_mem_compact v]
  | v :: w :: vs => by
    simp [compactItems, newline_not_mem_compact v, newline_not_mem_compactItems (w :: vs)]

theorem newline_not_mem_compactFields : (fs : List (String × Value)) → '\n' ∉ compactFields fs
  | [] => by simp [compactFields]
  | [(k, v)] => by simp [compactFields, newline_not_mem_quote, newline_not_mem_compact v]
  | (k, v) :: f :: fs => by
    simp [compactFields, newline_not_mem_quote, newline_not_mem_compact v,
      newline_not_mem_compactFields (f :: fs)]

end

end Value
end MystNotebook.Json
