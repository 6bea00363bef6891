import MystNotebook.Document.Walk
import MystNotebook.Proofs.CharacterRuns
import MystNotebook.Proofs.CompactJson

/-! The texts of a document: the values, names and keys of its nodes, and the strings and keys of
the JSON that they hold. JSON sets no two colons side by side that are not so in its texts. -/
namespace MystNotebook
open Text

namespace Json

namespace Value

mutual

/-- The strings of a value and the keys of its objects. -/
def texts : Value → List String
  | .null | .bool _ | .number _ => []
  | .string s => [s]
  | .array items => textsOfItems items
  | .object fields => textsOfFields fields

def textsOfItems : List Value → List String
  | [] => []
  | v :: vs => texts v ++ textsOfItems vs

def textsOfFields : List (String × Value) → List String
  | [] => []
  | (k, v) :: fs => k :: (texts v ++ textsOfFields fs)

end

end Value

def Fields.texts (f : Fields) : List String := Value.textsOfFields f.entries

theorem Value.mem_textsOfFields {fs : List (String × Value)} {e : String × Value} (h : e ∈ fs)
    {s : String} (hs : s = e.1 ∨ s ∈ e.2.texts) : s ∈ textsOfFields fs := by
  induction fs with
  | nil => cases h
  | cons f fs ih =>
    rw [textsOfFields, List.mem_cons, List.mem_append]
    rcases List.mem_cons.mp h with rfl | h
    · exact hs.imp_right .inl
    · exact .inr (.inr (ih h))

theorem Fields.mem_texts_of_get? {f : Fields} {key : String} {v : Value}
    (h : f.get? key = some v) {s : String} (hs : s ∈ v.texts) : s ∈ f.texts := by
  have hmem : (key, v) ∈ f.entries := by
    rw [get?] at h
    generalize f.entries = l at h
    induction l with
    | nil => cases h
    | cons e l ih =>
      rw [lookup] at h
      split at h
      next hkey =>
        rw [← hkey, ← Option.some.inj h]
        exact List.mem_cons_self
      next => exact List.mem_cons_of_mem e (ih h)
  exact Value.mem_textsOfFields hmem (.inr hs)

theorem Fields.texts_erase_subset (f : Fields) (key : String) : (f.erase key).texts ⊆ f.texts := by
  suffices h : ∀ l : List (String × Value),
      Value.textsOfFields (l.filter (·.1 ≠ key)) ⊆ Value.textsOfFields l from h f.entries
  intro l
  induction l with
  | nil => exact List.Subset.refl _
  | cons e l ih =>
    rw [List.filter_cons]
    intro s hs
    rw [Value.textsOfFields, List.mem_cons, List.mem_append]
    split at hs
    · rw [Value.textsOfFields, List.mem_cons, List.mem_append] at hs
      exact hs.imp_right (.imp_right (ih ·))
    · exact .inr (.inr (ih hs))

/-! Colons in compact JSON. -/

theorem colon_not_mem_escapedChar {c : Char} (h : c ≠ ':') : ':' ∉ escapedChar c := by
  unfold escapedChar
  repeat' split
  all_goals simp_all [hexDigit, eq_comm]

theorem longestRun_flatMap_escapedChar (m : Nat) (s : List Char) :
    longestRun ':' m (s.flatMap escapedChar) = longestRun ':' m s := by
  induction s generalizing m with
  | nil => rfl
  | cons c s ih =>
    rw [List.flatMap_cons]
    by_cases hc : c = ':'
    · have hkept : escapedChar ':' = [':'] := by decide
      rw [hc, hkept, List.singleton_append, longestRun_cons_self, longestRun_cons_self, ih]
    · have hne : escapedChar c ≠ [] := by
        unfold escapedChar
        repeat' split
        all_goals simp
      rw [longestRun_append_of_not_mem hne (colon_not_mem_escapedChar hc), longestRun_cons_of_ne hc,
        ih]

/-- The quotation marks end the runs before and behind. -/
theorem longestRun_quote_append (m : Nat) (s : String) (t : List Char) :
    longestRun ':' m (quote s ++ t) =
      max m (max (longestRun ':' 0 s.toList) (longestRun ':' 0 t)) := by
  have hquote : quote s ++ t = '"' :: (s.toList.flatMap escapedChar ++ '"' :: t) := by
    simp [quote]
  rw [hquote, longestRun_cons_of_ne (by decide), longestRun_append_cons (by decide),
    longestRun_flatMap_escapedChar]

namespace Value
variable {k : Nat}

/-! The count starts at one, for the colon between a key and its value. -/

mutual

theorem longestRun_compact (hk : 2 ≤ k) : (v : Value) →
    (∀ s ∈ v.texts, RunsBelow ':' k s.toList) → longestRun ':' 1 (compact v) < k
  | .null, _ => by
    have hrun : longestRun ':' 1 (compact .null) = 1 := by decide
    omega
  | .bool b, _ => by
    have hrun : longestRun ':' 1 (compact (.bool b)) = 1 := by cases b <;> decide
    omega
  | .number n, _ => by
    rw [compact, longestRun_of_not_mem fun hmem => absurd (numeric_text n _ hmem) (by decide)]
    omega
  | .string s, h => by
    have hs : longestRun ':' 0 s.toList < k := h s List.mem_cons_self
    rw [compact, ← List.append_nil (quote s), longestRun_quote_append, longestRun]
    omega
  | .array items, h => by
    have hitems := longestRun_compactItems hk items h
    have hzero := longestRun_mono (c := ':') (Nat.zero_le 1) (compactItems items)
    rw [compact, List.append_assoc, List.singleton_append, longestRun_cons_of_ne (by decide),
      longestRun_append_cons (by decide), longestRun]
    omega
  | .object fields, h => by
    have hfields := longestRun_compactFields hk fields h
    have hzero := longestRun_mono (c := ':') (Nat.zero_le 1) (compactFields fields)
    rw [compact, List.append_assoc, List.singleton_append, longestRun_cons_of_ne (by decide),
      longestRun_append_cons (by decide), longestRun]
    omega

theorem longestRun_compactItems (hk : 2 ≤ k) : (vs : List Value) →
    (∀ s ∈ textsOfItems vs, RunsBelow ':' k s.toList) → longestRun ':' 1 (compactItems vs) < k
  | [], _ => by
    rw [compactItems, longestRun]
    omega
  | [v], h => by
    rw [compactItems]
    exact longestRun_compact hk v fun s hs => h s (List.mem_append_left _ hs)
  | v :: w :: vs, h => by
    rw [textsOfItems, List.forall_mem_append] at h
    have hv := longestRun_compact hk v h.1
    have hvs := longestRun_compactItems hk (w :: vs) h.2
    have hzero := longestRun_mono (c := ':') (Nat.zero_le 1) (compactItems (w :: vs))
    rw [compactItems, List.append_assoc, List.singleton_append, longestRun_append_cons (by decide)]
    · omega
    · simp

theorem longestRun_compactFields (hk : 2 ≤ k) : (fs : List (String × Value)) →
    (∀ s ∈ textsOfFields fs, RunsBelow ':' k s.toList) → longestRun ':' 1 (compactFields fs) < k
  | [], _ => by
    rw [compactFields, longestRun]
    omega
  | [(key, v)], h => by
    rw [textsOfFields, List.forall_mem_cons, List.forall_mem_append] at h
    have hkey : longestRun ':' 0 key.toList < k := h.1
    have hv := longestRun_compact hk v h.2.1
    rw [compactFields, List.append_assoc, List.singleton_append, longestRun_quote_append,
      longestRun_cons_self, Nat.zero_add]
    omega
  | (key, v) :: f :: fs, h => by
    rw [textsOfFields, List.forall_mem_cons, List.forall_mem_append] at h
    have hkey : longestRun ':' 0 key.toList < k := h.1
    have hv := longestRun_compact hk v h.2.1
    have hfs := longestRun_compactFields hk (f :: fs) h.2.2
    have hzero := longestRun_mono (c := ':') (Nat.zero_le 1) (compactFields (f :: fs))
    have hlist : compactFields ((key, v) :: f :: fs) =
        quote key ++ ':' :: (compact v ++ ',' :: compactFields (f :: fs)) := by
      simp [compactFields]
    rw [hlist, longestRun_quote_append, longestRun_cons_self, Nat.zero_add,
      longestRun_append_cons (by decide)]
    omega

end

theorem runsBelow_compact (hk : 2 ≤ k) {v : Value} (h : ∀ s ∈ v.texts, RunsBelow ':' k s.toList) :
    RunsBelow ':' k (compact v) :=
  (longestRun_mono (Nat.zero_le 1) _).trans_lt (longestRun_compact hk v h)

end Value
end Json

def Target.texts (t : Target) : List String := t.identifier.toList ++ t.label.toList

def Leaf.texts : Leaf → List String
  | .thematicBreak | .lineBreak => []
  | .code c => c.lang.toList ++ c.metadata.toList ++ [c.value] ++ c.cssClass.toList ++
      c.filename.toList ++ c.target.texts
  | .image i => [i.url] ++ i.title.toList ++ i.alt.toList ++ i.cssClass.toList ++
      i.width.toList ++ i.height.toList ++ i.align.toList
  | .math m => [m.value] ++ m.target.texts ++ m.enumerator.toList
  | .text value | .inlineCode value | .inlineMath value | .html value | .target value
  | .comment value => [value]

def fieldTexts (fields : Option Json.Fields) : List String :=
  (fields.map Json.Fields.texts).getD []

def Parent.texts : Parent → List String
  | .block kind data target => kind.toList ++ fieldTexts data ++ target.texts
  | .heading _ target => target.texts
  | .link url title => [url] ++ title.toList
  | .crossReference kind target => kind.toList ++ target.texts
  | .admonition kind cssClass | .aside kind cssClass => kind.toList ++ cssClass.toList
  | .container kind target enumerator cssClass =>
    kind.toList ++ target.texts ++ enumerator.toList ++ cssClass.toList
  | .exercise target enumerator cssClass =>
    target.texts ++ enumerator.toList ++ cssClass.toList
  | .solution target cssClass => target.texts ++ cssClass.toList
  | .proof kind target enumerator => kind.toList ++ target.texts ++ enumerator.toList
  | .tabItem title => [title]
  | .card url => url.toList
  | .inclusion file => file.toList
  | .directive name args options value =>
    [name] ++ args.toList ++ fieldTexts options ++ value.toList
  | .role name value => [name] ++ value.toList
  | .other typeName fields => typeName :: fields.texts
  | .paragraph | .blockquote | .list _ _ _ | .listItem _ | .table _ | .tableRow | .tableCell _
  | .definitionList | .definitionTerm | .definitionDescription | .emphasis | .strong
  | .admonitionTitle | .caption | .legend | .tabSet | .cardTitle | .header | .footer | .grid _
  | .details _ | .summary => []

/-- The texts that the node holds itself, not those of its children. -/
def Node.texts : Node → List String
  | .leaf l => l.texts
  | .parent p _ => p.texts

theorem Leaf.texts_withoutTarget_subset (l : Leaf) : l.withoutTarget.texts ⊆ l.texts := by
  cases l with
  | code | math =>
    intro s hs
    simp only [withoutTarget, texts, Target.texts, List.mem_append] at hs ⊢
    grind
  | _ => exact List.Subset.refl _

theorem Parent.texts_withoutTarget_subset (p : Parent) : p.withoutTarget.texts ⊆ p.texts := by
  cases p with
  | other name fields =>
    refine List.cons_subset_cons name fun s hs => ?_
    have hlabel := Json.Fields.texts_erase_subset _ "html_id" hs
    have hidentifier := Json.Fields.texts_erase_subset _ "label" hlabel
    exact Json.Fields.texts_erase_subset fields "identifier" hidentifier
  | block | heading | container | exercise | solution | proof =>
    intro s hs
    simp only [withoutTarget, texts, Target.texts, List.mem_append] at hs ⊢
    grind
  | _ => exact List.Subset.refl _

theorem Node.ownText_mem (n : Node) : n.ownText = "" ∨ n.ownText ∈ n.texts := by
  cases n with
  | leaf l =>
    cases l with
    | text | inlineCode | inlineMath => exact .inr (List.mem_singleton_self _)
    | _ => exact .inl rfl
  | parent p cs => exact .inl rfl

end MystNotebook
