import MystNotebook.Proofs.WrittenRuns

/-! Directives one inside the other. A fence is longer than every run of colons between it and the
fence that closes it, so nothing that stands inside a directive can close it. -/
namespace MystNotebook.Markdown
open Text Draft

mutual

theorem directiveDepth_le_of_mem_preorder : (n : Node) → ∀ m ∈ n.preorder,
    directiveDepth m ≤ directiveDepth n
  | .leaf l, m, hm => by
    rw [Node.preorder, List.mem_singleton] at hm
    rw [hm]
  | .parent p cs, m, hm => by
    rw [Node.preorder, List.mem_cons] at hm
    rcases hm with rfl | hm
    · exact le_refl _
    · have hle := directiveDepth_le_of_mem_preorderAll cs m hm
      rw [directiveDepth]
      split <;> omega

theorem directiveDepth_le_of_mem_preorderAll : (ns : List Node) → ∀ m ∈ Node.preorderAll ns,
    directiveDepth m ≤ directiveDepthAll ns
  | [], m, hm => by
    rw [Node.preorderAll] at hm
    cases hm
  | n :: ns, m, hm => by
    rw [Node.preorderAll, List.mem_append] at hm
    rw [directiveDepthAll]
    rcases hm with hm | hm
    · exact (directiveDepth_le_of_mem_preorder n m hm).trans (le_max_left _ _)
    · exact (directiveDepth_le_of_mem_preorderAll ns m hm).trans (le_max_right _ _)

end

theorem preorder_eq (n : Node) : n.preorder = n :: Node.preorderAll n.children := by
  cases n with
  | leaf l => rfl
  | parent p cs => rw [Node.preorder, Node.children]

mutual

theorem preorder_subset_preorder : (n : Node) → ∀ m ∈ n.preorder, m.preorder ⊆ n.preorder
  | .leaf l, m, hm => by
    rw [Node.preorder, List.mem_singleton] at hm
    rw [hm]
    exact List.Subset.refl _
  | .parent p cs, m, hm => by
    rw [Node.preorder, List.mem_cons] at hm
    rcases hm with rfl | hm
    · exact List.Subset.refl _
    · rw [Node.preorder]
      exact List.Subset.trans (preorder_subset_preorderAll cs m hm) (List.subset_cons_self _ _)

/-- What stands in a node of a document stands in the document. -/
theorem preorder_subset_preorderAll : (ns : List Node) → ∀ m ∈ Node.preorderAll ns,
    m.preorder ⊆ Node.preorderAll ns
  | [], m, hm => by
    rw [Node.preorderAll] at hm
    cases hm
  | n :: ns, m, hm => by
    rw [Node.preorderAll, List.mem_append] at hm
    rw [Node.preorderAll]
    rcases hm with hm | hm
    · exact List.Subset.trans (preorder_subset_preorder n m hm) (List.subset_append_left _ _)
    · exact List.Subset.trans (preorder_subset_preorderAll ns m hm) (List.subset_append_right _ _)

end

/-- Nodes without colons in their texts are quiet up to any bound that their fences keep. -/
theorem quiet_of_colonFree {k : Nat} {n : Node} (hk : 3 + directiveDepth n ≤ k)
    (h : ∀ s ∈ n.texts, ':' ∉ s.toList) : n.Quiet ':' k := by
  refine ⟨fun s hs => sealed_of_not_mem ?_ (h s hs), .inr ⟨rfl, hk, h⟩⟩
  omega

theorem listWrites_children {n : Node}
    (h : ∀ m ∈ Node.preorderAll n.children, ∀ s ∈ m.texts, ':' ∉ s.toList) :
    ListWrites ':' (3 + directiveDepthAll n.children) n.children := by
  refine listWrites_of_quiet (.inl ⟨rfl, by omega⟩) n.children ?_
  rw [← Node.forall_mem_preorderAll]
  intro m hm
  have hdepth := directiveDepth_le_of_mem_preorderAll n.children m hm
  exact quiet_of_colonFree (Nat.add_le_add_left hdepth 3) (h m hm)

/-- A node of no kind that is counted as a directive has no fence of its own. -/
theorem grows_of_not_writesDirective {n : Node} (hd : writesDirective n = false)
    (h : ∀ m ∈ n.preorder, ∀ s ∈ m.texts, ':' ∉ s.toList) (d : Draft) :
    Grows ':' (3 + directiveDepthAll n.children) d (d.asBlock n (writeNode n)) := by
  have hm : IsMark ':' (3 + directiveDepthAll n.children) := .inl ⟨rfl, by omega⟩
  have hdepth : directiveDepth n = directiveDepthAll n.children := by
    cases n with
    | leaf l => rw [directiveDepth, hd, Node.children, directiveDepthAll, if_neg Bool.false_ne_true]
    | parent p cs => rw [directiveDepth, hd, Node.children, if_neg Bool.false_ne_true]
  have hquiet : n.Everywhere (Node.Quiet ':' (3 + directiveDepthAll n.children)) := by
    intro m hmem
    have hle := directiveDepth_le_of_mem_preorder n m hmem
    rw [hdepth] at hle
    exact quiet_of_colonFree (Nat.add_le_add_left hle 3) (h m hmem)
  exact writes_asBlock hm hquiet.self (writes_of_quiet hm n hquiet).1 (Grows.refl hm d)

/-- The opening lines behind the fence. -/
theorem sealed_directiveHead {k : Nat} (hm : IsMark ':' k) (hk : 3 ≤ k) {n : Node}
    (hn : ∀ s ∈ n.texts, ':' ∉ s.toList)
    (hchildren : ∀ m ∈ n.children, ∀ s ∈ m.texts, Sealed ':' k s.toList)
    (hw : ListWrites ':' k n.children) (d : Draft) :
    Sealed ':' k (directiveStart [] (directiveName n) (directiveArgument n d)
      (directiveOptions n)) := by
  have hempty : RunsBelow ':' k [] := hm.nil.runs
  cases n with
  | leaf l =>
    have hruns : ∀ s ∈ l.texts, RunsBelow ':' k s.toList :=
      fun s hs => runsBelow_of_not_mem hm.pos (hn s hs)
    have hname : RunsBelow ':' k "image".toList := runsBelow_of_not_mem hm.pos (by decide)
    cases l with
    | image i =>
      have hurl := hruns i.url (by simp [Leaf.texts])
      exact sealed_directiveStart hm hk hempty hname (by simpa [directiveArgument] using hurl)
        (isTame_imageOptions hruns)
    | _ =>
      exact sealed_directiveStart hm hk hempty hname (by simp [directiveArgument])
        (by simp [directiveOptions])
  | parent p cs =>
    have htexts : ∀ s ∈ p.texts, Sealed ':' k s.toList :=
      fun s hs => sealed_of_not_mem hm.pos (hn s hs)
    exact sealed_directiveStart hm hk hempty (runsBelow_directiveName hm hn)
      (runsBelow_directiveArgument hm htexts hchildren hw d)
      (isTame_directiveOptions hm hn hchildren)

/-- Neither behind the opening fence nor in the body is there a run as long as the fence. -/
theorem sealed_inside {n : Node} (h : ∀ m ∈ n.preorder, ∀ s ∈ m.texts, ':' ∉ s.toList) (d : Draft) :
    Sealed ':' (3 + directiveDepthAll n.children)
        (directiveStart [] (directiveName n) (directiveArgument n d) (directiveOptions n)) ∧
      Writes ':' (3 + directiveDepthAll n.children) (directiveBody n) := by
  have hm : IsMark ':' (3 + directiveDepthAll n.children) := .inl ⟨rfl, by omega⟩
  rw [preorder_eq] at h
  obtain ⟨hself, hbelow⟩ := List.forall_mem_cons.mp h
  have htexts : ∀ s ∈ n.texts, Sealed ':' (3 + directiveDepthAll n.children) s.toList :=
    fun s hs => sealed_of_not_mem hm.pos (hself s hs)
  have hchildren : ∀ m ∈ n.children, ∀ s ∈ m.texts,
      Sealed ':' (3 + directiveDepthAll n.children) s.toList := by
    intro m hmem s hs
    exact sealed_of_not_mem hm.pos ((Node.forall_mem_preorderAll.mp hbelow m hmem).self s hs)
  have hw := listWrites_children hbelow
  exact ⟨sealed_directiveHead hm (Nat.le_add_right 3 _) hself hchildren hw d,
    writes_directiveBody hm htexts hw⟩

/-- In a document whose texts have no colon, a node in block position either is no directive, and
then it writes no fence but those of the directives below it, or it is a directive: its body between
two fences, and neither behind the opening fence nor in the body, whatever it is written after, do
colons stand in a run as long as the fence. -/
theorem directive_encloses {ns : List Node}
    (h : ∀ m ∈ Node.preorderAll ns, ∀ s ∈ m.texts, ':' ∉ s.toList) {n : Node}
    (hn : n ∈ Node.preorderAll ns) (d : Draft) :
    (writesDirective n = false →
      ∃ text, (d.asBlock n (writeNode n)).page = text.reverse ++ d.page ∧
        ¬ colonFence (directiveDepthAll n.children) <:+: text) ∧
    (writesDirective n = true →
      (∃ d' : Draft, d'.page = d.page ∧
        d.asBlock n (writeNode n) = d'.directiveOf n (directiveArgument n d) ∧
        (isInline n = false → writeNode n d = d'.directiveOf n (directiveArgument n d))) ∧
      ¬ colonFence (directiveDepthAll n.children) <:+:
        directiveStart [] (directiveName n) (directiveArgument n d) (directiveOptions n) ∧
      ∀ e : Draft, ∃ body, (directiveBody n e).page = body.reverse ++ e.page ∧
        ¬ colonFence (directiveDepthAll n.children) <:+: body) := by
  have hinside : ∀ m ∈ n.preorder, ∀ s ∈ m.texts, ':' ∉ s.toList :=
    fun m hmem => h m (preorder_subset_preorderAll ns n hn hmem)
  refine ⟨fun hd => ?_, fun hd => ?_⟩
  · obtain ⟨text, hpage, htext⟩ := grows_of_not_writesDirective hd hinside d
    exact ⟨text, hpage, htext.runs.not_infix_replicate⟩
  · obtain ⟨hhead, hbody⟩ := sealed_inside hinside d
    refine ⟨?_, hhead.runs.not_infix_replicate, fun e => ?_⟩
    · obtain ⟨d', hpage, hblock⟩ := asBlock_directive hd d
      refine ⟨d', hpage, hblock, fun hinline => ?_⟩
      rw [← hblock, asBlock_of_not_isInline hinline]
    · obtain ⟨body, hpage, hsealed⟩ := hbody e
      exact ⟨body, hpage, hsealed.runs.not_infix_replicate⟩

/-- A set of tabs in an admonition. -/
def nestedTabs : Node :=
  .parent (.admonition (some "note") none)
    [.parent .tabSet [.parent (.tabItem "one") [.paragraph [.text "x"]]]]

theorem directive_encloses_nestedTabs :
    directiveDepthAll nestedTabs.children = 2 ∧
    (∃ d' : Draft, d'.page = [] ∧
      Draft.asBlock {} nestedTabs (writeNode nestedTabs) = d'.directiveOf nestedTabs none ∧
      (isInline nestedTabs = false → writeNode nestedTabs {} = d'.directiveOf nestedTabs none)) ∧
    ¬ ":::::".toList <:+: "\x7bnote\x7d\n".toList ∧
    ∀ e : Draft, ∃ body, (directiveBody nestedTabs e).page = body.reverse ++ e.page ∧
      ¬ ":::::".toList <:+: body := by
  have hcolonFree : ∀ m ∈ Node.preorderAll [nestedTabs], ∀ s ∈ m.texts, ':' ∉ s.toList := by
    decide
  exact ⟨rfl, (directive_encloses hcolonFree List.mem_cons_self {}).2 rfl⟩

end MystNotebook.Markdown
