import MystNotebook.Proofs.ConsistentNaming
import MystNotebook.Proofs.LaidOutRuns

/-! Runs of a character in a text whose images are embedded. The names of attachments come from the
urls in the text, so their runs are no longer than those of the text, and only the colon of the
scheme can make one longer. A reference starts and ends in characters of its own. -/
namespace MystNotebook.Attachment
open Text Markdown

/-- The runs of names are shorter than `k`, and behind the scheme of an attachment shorter than
`l`. -/
structure NameBounds (c : Char) (k l : Nat) : Prop where
  mark : IsMark c k
  le : k ≤ l
  scheme : ∀ s, RunsBelow c k s → RunsBelow c l ("attachment:".toList ++ s)

theorem nameBounds_colon {k : Nat} (hk : 2 ≤ k) : NameBounds ':' k (k + 1) := by
  refine ⟨.inl ⟨rfl, hk⟩, Nat.le_succ k, fun s hs => ?_⟩
  have hscheme : "attachment:".toList ++ s = "attachment".toList ++ ':' :: s := rfl
  have hle := longestRun_succ_le (c := ':') 0 s
  rw [RunsBelow, hscheme, longestRun_append_of_not_mem (by decide) (by decide),
    longestRun_cons_self]
  have hs' : longestRun ':' 0 s < k := hs
  omega

theorem nameBounds_plus {k : Nat} (hk : 0 < k) : NameBounds '+' k k := by
  refine ⟨.inr ⟨rfl, hk⟩, le_refl k, fun s hs => ?_⟩
  exact hs.append_of_not_mem (by decide)

section
variable {c : Char} {k : Nat}

/-! Names. -/

theorem longestRun_unescapeUrl (hm : IsMark c k) (m : Nat) (s : List Char) :
    longestRun c m (unescapeUrl s) ≤ longestRun c m s := by
  have hbracket : ∀ x ∈ ['(', ')', '[', ']', '<', '>'], ':' ∉ [x] ∧ '+' ∉ [x] := by simp
  fun_induction unescapeUrl s generalizing m with
  | case1 => exact le_refl _
  | case2 x => exact le_refl _
  | case3 x x' s h ih =>
    have hx' : x' ≠ c := hm.ne (hbracket x' h.2)
    rw [h.1, longestRun_cons_of_ne hx', longestRun_cons_of_ne (hm.ne (by decide)),
      longestRun_cons_of_ne hx']
    have := ih 0
    omega
  | case4 x x' s h ih =>
    by_cases hx : x = c
    · subst hx
      rw [longestRun_cons_self, longestRun_cons_self]
      exact ih (m + 1)
    · rw [longestRun_cons_of_ne hx, longestRun_cons_of_ne hx]
      have := ih 0
      omega

theorem lastSegment_isInfix (path : List Char) : lastSegment path <:+: path := by
  rw [← List.reverse_infix, lastSegment, List.reverse_reverse]
  exact (List.takeWhile_prefix _).isInfix.trans (List.dropWhile_suffix _).isInfix

theorem runsBelow_baseName (hm : IsMark c k) {url : String} (h : RunsBelow c k url.toList) :
    RunsBelow c k (baseName url).toList := by
  have hsegment : RunsBelow c k (lastSegment (urlPath url.toList)) :=
    h.of_isInfix ((lastSegment_isInfix _).trans (List.takeWhile_prefix _).isInfix)
  simp only [baseName]
  split
  · exact runsBelow_of_not_mem hm.pos (hm.not_mem (by decide))
  · rwa [String.toList_ofList]

/-- The number stands between an underscore and a dot, or at the end. -/
theorem runsBelow_freeName (hm : IsMark c k) {name : String} (h : RunsBelow c k name.toList)
    (taken : Attachments) : RunsBelow c k (freeName name taken).toList := by
  rcases (freeName_cases name taken).2 with he | ⟨n, he⟩
  · rwa [he]
  · have hdigits : c ∉ n.repr.toList := by
      rw [← Nat.toString_eq_repr]
      exact hm.not_mem_digits n
    rw [← splitExtension_append name.toList] at h
    have hstem := h.of_isInfix (List.prefix_append _ _).isInfix
    have hextension := h.of_isInfix (List.suffix_append _ _).isInfix
    rw [he, toList_numberedName]
    exact hstem.append_cons (hm.ne (by decide)) (hextension.append_of_not_mem hdigits)

theorem runsBelow_parts (hm : IsMark c k) {r : ImageReference} (h : RunsBelow c k r.source) :
    RunsBelow c k r.alt ∧ RunsBelow c k r.target.toList := by
  constructor
  · refine h.of_isInfix ⟨['!', '['], [']', '('] ++
      (if r.angled then ['<'] ++ r.url ++ ['>'] else r.url) ++ r.title ++ [')'], ?_⟩
    simp [ImageReference.source]
  · have hurl : r.url <:+: r.source := by
      refine ⟨['!', '['] ++ r.alt ++ [']', '('] ++ (if r.angled then ['<'] else []),
        (if r.angled then ['>'] else []) ++ r.title ++ [')'], ?_⟩
      cases hangled : r.angled <;> simp [ImageReference.source, hangled]
    rw [ImageReference.target, String.toList_ofList]
    exact (longestRun_unescapeUrl hm 0 r.url).trans_lt (h.of_isInfix hurl)

/-- A new name comes from the url, and an old one has been looked at before. -/
theorem runsBelow_names_meet (hm : IsMark c k) (images : ImageMap) {n : Naming}
    (hn : ∀ e ∈ n.names, RunsBelow c k e.2.toList) {url : String}
    (hurl : RunsBelow c k url.toList) :
    ∀ e ∈ (n.meet images url).names, RunsBelow c k e.2.toList := by
  unfold Naming.meet
  split
  next image _ =>
    cases hlookup : n.names.lookup url with
    | some name => rwa [Naming.name_of_some hlookup]
    | none =>
      have hname := runsBelow_freeName hm (runsBelow_baseName hm hurl) n.attachments
      rw [Naming.name_of_none hlookup]
      exact List.forall_mem_cons.mpr ⟨hname, hn⟩
  next => exact hn

theorem runsBelow_names_after (hm : IsMark c k) (images : ImageMap) {n : Naming}
    (hn : ∀ e ∈ n.names, RunsBelow c k e.2.toList) {urls : List String}
    (hurls : ∀ url ∈ urls, RunsBelow c k url.toList) :
    ∀ e ∈ (n.after images urls).names, RunsBelow c k e.2.toList := by
  induction urls generalizing n with
  | nil => exact hn
  | cons url urls ih =>
    obtain ⟨hurl, hurls⟩ := List.forall_mem_cons.mp hurls
    exact ih (runsBelow_names_meet hm images hn hurl) hurls

/-- A url without a name has the empty one. -/
theorem runsBelow_nameOf (hm : IsMark c k) {n : Naming}
    (hn : ∀ e ∈ n.names, RunsBelow c k e.2.toList) (url : String) :
    RunsBelow c k (n.nameOf url).toList := by
  rw [Naming.nameOf]
  cases hlookup : n.names.lookup url with
  | none => exact hm.nil.runs
  | some name => exact hn (url, name) (mem_of_lookup hlookup)

end

section
variable {c : Char} {k l : Nat}

theorem NameBounds.mark_out (hb : NameBounds c k l) : IsMark c l :=
  hb.mark.imp (fun h => ⟨h.1, h.2.trans hb.le⟩) fun h => ⟨h.1, h.2.trans_le hb.le⟩

/-! References. -/

theorem runsBelow_schemedDestination (hb : NameBounds c k l) {name : List Char}
    (h : RunsBelow c k name) :
    RunsBelow c l (schemedDestination "attachment:".toList name) := by
  have hm := hb.mark_out
  have hescaped (x y : Char) (hx : ':' ∉ [x, '\\', y] ∧ '+' ∉ [x, '\\', y]) :
      RunsBelow c k (replace y ['\\', y] (replace x ['\\', x] name)) := by
    simp only [List.mem_cons, List.not_mem_nil, or_false, not_or] at hx
    have hfirst : RunsBelow c k (replace x ['\\', x] name) :=
      runsBelow_replace hb.mark x ['\\', x] (by simp) (by simp [hx]) h
    exact runsBelow_replace hb.mark y ['\\', y] (by simp) (by simp [hx]) hfirst
  unfold schemedDestination
  split
  · have hangles : RunsBelow c l ("attachment:".toList ++ escapeAngles name) :=
      hb.scheme _ (hescaped '<' '>' (by decide))
    rw [List.append_assoc ['<'], List.append_assoc ['<']]
    apply RunsBelow.append_of_not_mem (hm.not_mem (by decide))
    exact hangles.append_cons (hm.ne (by decide)) hm.nil.runs
  · exact hb.scheme _ (hescaped '(' ')' (by decide))

theorem runsBelow_attachmentReference (hb : NameBounds c k l) {alt : List Char} {name : String}
    (halt : RunsBelow c k alt) (hname : RunsBelow c k name.toList) :
    RunsBelow c l (attachmentReference alt name) := by
  have hm := hb.mark_out
  have hclosed := (runsBelow_schemedDestination hb hname).append_cons
    (hm.ne (x := ')') (by decide)) hm.nil.runs
  have hopened : RunsBelow c l (['('] ++ (schemedDestination "attachment:".toList name.toList ++
      ')' :: [])) := hclosed.append_of_not_mem (hm.not_mem (by decide))
  have hbehind := (halt.mono hb.le).append_cons (hm.ne (x := ']') (by decide)) hopened
  have hreference := hbehind.append_of_not_mem (s := ['!', '[']) (hm.not_mem (by decide))
  simpa [attachmentReference] using hreference

/-- A text between an exclamation mark and a closing parenthesis. -/
def IsEnclosed (s : List Char) : Prop := ∃ inside, s = '!' :: (inside ++ [')'])

theorem isEnclosed_source (r : ImageReference) : IsEnclosed r.source :=
  ⟨'[' :: (r.alt ++ [']', '('] ++ (if r.angled then ['<'] ++ r.url ++ ['>'] else r.url) ++ r.title),
    by simp [ImageReference.source]⟩

theorem isEnclosed_attachmentReference (alt : List Char) (name : String) :
    IsEnclosed (attachmentReference alt name) :=
  ⟨'[' :: (alt ++ [']', '('] ++ schemedDestination "attachment:".toList name.toList),
    by simp [attachmentReference]⟩

/-- Runs end where the text starts and where it ends. -/
theorem IsEnclosed.longestRun_append (hm : IsMark c k) {s : List Char} (hs : IsEnclosed s) (m : Nat)
    (t : List Char) :
    longestRun c m (s ++ t) = max m (max (longestRun c 0 s) (longestRun c 0 t)) := by
  obtain ⟨inside, rfl⟩ := hs
  have hstart : '!' ≠ c := hm.ne (by decide)
  have hend : ')' ≠ c := hm.ne (by decide)
  have hsplit : '!' :: (inside ++ [')']) ++ t = '!' :: (inside ++ ')' :: t) := by simp
  rw [hsplit, longestRun_cons_of_ne hstart, longestRun_cons_of_ne hstart,
    longestRun_append_cons hend, longestRun_append_cons hend, longestRun]
  omega

/-! Texts. -/

theorem longestRun_renamed (hb : NameBounds c k l) (images : ImageMap) {name : String → String}
    (hname : ∀ url, RunsBelow c k (name url).toList) {segs : List Segment} {m : Nat}
    (h : longestRun c m (segs.flatMap Segment.source) < k) :
    longestRun c m (segs.flatMap (Segment.renamed images name)) < l := by
  have hle := hb.le
  induction segs generalizing m with
  | nil => exact Nat.lt_of_lt_of_le h hle
  | cons seg segs ih =>
    rw [List.flatMap_cons] at h ⊢
    cases seg with
    | plain x =>
      by_cases hx : x = c
      · subst hx
        simp only [Segment.source, Segment.renamed, List.singleton_append,
          longestRun_cons_self] at h ⊢
        exact ih h
      · simp only [Segment.source, Segment.renamed, List.singleton_append,
          longestRun_cons_of_ne hx] at h ⊢
        have hrest := ih (lt_of_le_of_lt (le_max_right m _) h)
        omega
    | image r =>
      rw [Segment.source, (isEnclosed_source r).longestRun_append hb.mark] at h
      have hsource : RunsBelow c k r.source := by
        show longestRun c 0 r.source < k
        omega
      have hrest := ih (m := 0) (by omega)
      rw [Segment.renamed]
      split
      · obtain ⟨halt, -⟩ := runsBelow_parts hb.mark hsource
        have hreference : longestRun c 0 (attachmentReference r.alt (name r.target)) < l :=
          runsBelow_attachmentReference hb halt (hname r.target)
        rw [(isEnclosed_attachmentReference r.alt _).longestRun_append hb.mark]
        omega
      · rw [(isEnclosed_source r).longestRun_append hb.mark]
        omega

/-- Embedding images makes runs of colons longer by one at most, and no others. -/
theorem runsBelow_embed (hb : NameBounds c k l) (images : ImageMap) {markdown : String}
    (h : RunsBelow c k markdown.toList) : RunsBelow c l (embed images markdown).1.toList := by
  have htargets : ∀ url ∈ targets (segments markdown.toList), RunsBelow c k url.toList := by
    intro url hurl
    obtain ⟨seg, hseg, hsegurl⟩ := List.mem_filterMap.mp hurl
    cases seg with
    | plain x => cases hsegurl
    | image r =>
      obtain rfl : r.target = url := Option.some.inj hsegurl
      have hinfix := infix_flatMap_of_mem (f := Segment.source) hseg
      rw [flatMap_source_segments] at hinfix
      exact (runsBelow_parts hb.mark (h.of_isInfix hinfix)).2
  have hnames := runsBelow_names_after hb.mark images (n := {}) (by simp) htargets
  rw [embed_eq, String.toList_ofList]
  refine longestRun_renamed hb images (runsBelow_nameOf hb.mark hnames) ?_
  rw [flatMap_source_segments]
  exact h

end
end MystNotebook.Attachment
