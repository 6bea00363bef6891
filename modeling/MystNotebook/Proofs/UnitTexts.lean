import MystNotebook.Notebook.Assemble
import MystNotebook.Proofs.FirstOccurrences
import MystNotebook.Proofs.LiftedUnits
import MystNotebook.Proofs.WrittenRuns

/-! The texts of the units of a notebook. Lifting moves nodes and makes copies of blocks, which hold
no text that was not there, and degrading only builds upon the texts that it is given. -/
namespace MystNotebook

namespace Text

/-- A number that is no character stands for the null character. -/
theorem toNat_ofNat_cases (n : Nat) : (Char.ofNat n).toNat = n ∨ (Char.ofNat n).toNat = 0 := by
  by_cases h : n.isValidChar
  · left
    rw [Char.ofNat, dif_pos h]
    rfl
  · right
    rw [Char.ofNat, dif_neg h]
    rfl

theorem letters_upperSequences :
    upperSequences.all (fun e => e.2.all fun n => decide (0x41 ≤ n)) = true := by
  decide +kernel

theorem letters_upperRanges : upperRanges.all (fun e => decide (0x41 ≤ e.2.2.2)) = true := by
  decide +kernel

/-- No character below the letters is the upper case of another. -/
theorem not_mem_upperCase {c x : Char} (hpos : 0 < c.toNat) (hc : c.toNat < 0x41) (hx : c ≠ x) :
    c ∉ upperCase x := by
  have hofNat (n : Nat) (hn : 0x41 ≤ n) : c ≠ Char.ofNat n := by
    rintro rfl
    rcases toNat_ofNat_cases n with he | he <;> omega
  unfold upperCase
  split
  next image himage =>
    have hmem : (x.toNat, image) ∈ upperSequences := mem_of_lookup himage
    intro hc
    obtain ⟨n, hn, he⟩ := List.mem_map.mp hc
    have hle := List.all_eq_true.mp (List.all_eq_true.mp letters_upperSequences _ hmem) n hn
    exact hofNat n (of_decide_eq_true hle) he.symm
  next =>
    simp only []
    split
    next lo hi step image hfound =>
      have hle := List.all_eq_true.mp letters_upperRanges _ (List.mem_of_find?_eq_some hfound)
      rw [List.mem_singleton]
      exact hofNat _ (Nat.le_add_right_of_le (of_decide_eq_true hle))
    next => simpa using hx

theorem not_mem_capitalize {c : Char} (hpos : 0 < c.toNat) (hc : c.toNat < 0x41) {s : String}
    (hs : c ∉ s.toList) : c ∉ (capitalize s).toList := by
  unfold capitalize
  split
  next => simp
  next x xs heq =>
    rw [heq, List.mem_cons, not_or] at hs
    rw [String.toList_ofList, List.mem_append, not_or]
    exact ⟨not_mem_upperCase hpos hc hs.1, hs.2⟩

end Text

namespace CommonMark

/-- A character that degrading does not write by itself does not come up. -/
theorem textClosed_not_mem {c : Char} (hpos : 0 < c.toNat) (hc : c.toNat < 0x41)
    (hfixed : ∀ s ∈ fixedTexts, c ∉ s.toList) : TextClosed fun s => c ∉ s.toList := by
  constructor
  · exact hfixed
  · intro s t hs ht
    rw [String.toList_append, List.mem_append, not_or]
    exact ⟨hs, ht⟩
  · exact Text.not_mem_capitalize hpos hc
  · intro s hs
    unfold withoutDomain
    split
    next rest heq =>
      rw [heq] at hs
      rw [String.toList_ofList]
      exact fun hmem => hs (by simp [hmem])
    next => exact hs

end CommonMark

namespace CodeCell
variable {P : Node → Prop}

/-- What holds of a node still holds when it has other children, or is a block and no target. -/
structure OfAttributes (P : Node → Prop) : Prop where
  children : ∀ p cs ds, P (.parent p cs) → P (.parent p ds)
  target : ∀ kind data target cs, P (.parent (.block kind data target) cs) →
    P (.parent (.block kind data {}) cs)

theorem ofAttributes_texts (Q : String → Prop) : OfAttributes fun n => ∀ s ∈ n.texts, Q s := by
  constructor
  · exact fun p cs ds h => h
  · intro kind data target cs h s hs
    exact h s ((Parent.block kind data target).texts_withoutTarget_subset hs)

theorem everywhere_gatedPieces (hP : OfAttributes P) {n : Node} (h : n.Everywhere P) :
    ∀ q ∈ gatedPieces n, q.node.Everywhere P := by
  cases n with
  | leaf l => simpa [gatedPieces] using h
  | parent p cs =>
    obtain ⟨hp, hcs⟩ := Node.everywhere_parent.mp h
    rw [gatedPieces, List.forall_mem_cons]
    constructor
    · refine Node.everywhere_parent.mpr ⟨hP.children p cs _ hp, fun c hc => ?_⟩
      exact hcs c ((List.takeWhile_sublist _).subset hc)
    · intro q hq
      obtain ⟨c, hc, rfl⟩ := List.mem_map.mp hq
      rw [node_pieceOf]
      exact hcs c ((List.dropWhile_sublist _).subset hc)

theorem everywhere_childPieces (hP : OfAttributes P) (dropSolutions : Bool) {n : Node}
    (h : n.Everywhere P) : ∀ q ∈ childPieces dropSolutions n, q.node.Everywhere P := by
  unfold childPieces
  split
  · exact everywhere_gatedPieces hP h
  · simpa using h

theorem everywhere_closeRun {kind : Option String} {data : Option Json.Fields} {target : Target}
    {run : List Node} (hblock : ∀ cs, P (.parent (.block kind data target) cs))
    (hrun : ∀ n ∈ run, n.Everywhere P) :
    ∀ n ∈ closeRun kind data target run, n.Everywhere P := by
  unfold closeRun
  split
  · simp
  · rw [List.forall_mem_singleton]
    exact Node.everywhere_parent.mpr ⟨hblock run, hrun⟩

theorem everywhere_rewrap (hP : OfAttributes P) {kind : Option String}
    {data : Option Json.Fields} {target : Target} {run : List Node} {ps : List Piece}
    (hblock : ∀ cs, P (.parent (.block kind data target) cs))
    (hrun : ∀ n ∈ run, n.Everywhere P) (hps : ∀ q ∈ ps, q.node.Everywhere P) :
    ∀ n ∈ rewrap kind data target run ps, n.Everywhere P := by
  induction ps generalizing run target with
  | nil => exact everywhere_closeRun hblock hrun
  | cons q ps ih =>
    rw [List.forall_mem_cons] at hps
    obtain ⟨hq, hrest⟩ := hps
    cases q with
    | prose n =>
      rw [rewrap_prose]
      refine ih hblock ?_ hrest
      exact List.forall_mem_append.mpr ⟨hrun, List.forall_mem_singleton.mpr hq⟩
    | cell n =>
      rw [rewrap_cell, List.forall_mem_append, List.forall_mem_cons]
      refine ⟨everywhere_closeRun hblock hrun, hq, ih ?_ (by simp) hrest⟩
      intro cs
      split
      · exact hblock cs
      · exact hP.target kind data target cs (hblock cs)

theorem everywhere_liftNode (hP : OfAttributes P) (dropSolutions : Bool) {n : Node}
    (h : n.Everywhere P) : ∀ m ∈ liftNode dropSolutions n, m.Everywhere P := by
  rcases needsLift_cases dropSolutions n with hn | hn | ⟨kind, data, target, cs, rfl, hk, hcs⟩
  · rw [liftNode_of_not_needsLift hn, List.forall_mem_singleton]
    exact h
  · rw [liftNode_of_isGated hn, List.forall_mem_map]
    exact everywhere_gatedPieces hP h
  · obtain ⟨hblock, hchildren⟩ := Node.everywhere_parent.mp h
    rw [liftNode_block hk hcs]
    refine everywhere_rewrap hP (fun ds => hP.children _ cs ds hblock) (by simp) ?_
    intro q hq
    obtain ⟨c, hc, hq⟩ := List.mem_flatMap.mp hq
    exact everywhere_childPieces hP dropSolutions (hchildren c hc) q hq

/-- The units hold what the document holds, node by node. -/
theorem everywhere_lift (hP : OfAttributes P) (dropSolutions : Bool) {ns : List Node}
    (h : ∀ n ∈ ns, n.Everywhere P) : ∀ m ∈ lift dropSolutions ns, m.Everywhere P := by
  intro m hm
  obtain ⟨n, hn, hm⟩ := List.mem_flatMap.mp hm
  exact everywhere_liftNode hP dropSolutions (h n hn) m hm

end CodeCell

/-- A unit on its way to CommonMark is written from plain nodes, with the texts of the document and
those that degrading makes of them. -/
theorem Notebook.quiet_prepared {options : NotebookOptions}
    (hcommonMark : options.markdown = .commonMark) {Q : String → Prop}
    (hQ : CommonMark.TextClosed Q) {c : Char} {k : Nat}
    (hsealed : ∀ s, Q s → Text.Sealed c k s.toList) {ns : List Node}
    (h : ∀ m ∈ Node.preorderAll ns, ∀ s ∈ m.texts, Q s) {unit : Node}
    (hunit : unit ∈ CodeCell.lift options.dropsSolutions ns) :
    ∀ n ∈ prepared options unit, n.Everywhere (Node.Quiet c k) := by
  have hlifted := CodeCell.everywhere_lift (CodeCell.ofAttributes_texts Q)
    options.dropsSolutions (Node.forall_mem_preorderAll.mp h) unit hunit
  rw [prepared, if_pos hcommonMark]
  have hplain := CommonMark.plainIn_degrade hQ options.dropSolutions [unit]
    (List.forall_mem_singleton.mpr hlifted)
  exact Markdown.quiet_of_plainIn hsealed hplain

end MystNotebook
