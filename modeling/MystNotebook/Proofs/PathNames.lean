import MystNotebook.Path
import MystNotebook.Proofs.FreeNames

/-! Paths by their parts. A path is determined by them, joining appends them and a new extension
changes the last of them, so that what is built from the names of files can be told apart. -/
namespace MystNotebook.Path

/-- A name that an entry of a directory can have. -/
def IsName (name : List Char) : Prop := isHollow name = false ∧ name ≠ ['.', '.'] ∧ '/' ∉ name

instance (name : List Char) : Decidable (IsName name) := inferInstanceAs (Decidable (_ ∧ _ ∧ _))

theorem IsName.ne_nil {name : List Char} (h : IsName name) : name ≠ [] := by
  rintro rfl
  exact absurd h.1 (by decide)

/-! Splitting and joining. -/

theorem splitSlashes_eq_splitOn (s : List Char) : splitSlashes s = s.splitOn '/' := by
  induction s with
  | nil => rfl
  | cons c cs ih =>
    rw [List.splitOn_cons_eq_if_modifyHead, splitSlashes, ih]
    by_cases hc : c = '/'
    · simp [hc]
    · cases hs : cs.splitOn '/' with
      | nil => exact absurd hs (List.splitOn_ne_nil _ _)
      | cons part parts => simp [hc]

theorem joinSlashes_eq_intercalate (parts : List (List Char)) :
    joinSlashes parts = ['/'].intercalate parts := by
  induction parts with
  | nil => rfl
  | cons part parts ih =>
    cases parts with
    | nil => simp [joinSlashes]
    | cons part' parts => rw [joinSlashes, ih, List.intercalate_cons_cons]; simp

theorem splitSlashes_joinSlashes {parts : List (List Char)} (hne : parts ≠ [])
    (hslash : ∀ part ∈ parts, '/' ∉ part) : splitSlashes (joinSlashes parts) = parts := by
  rw [splitSlashes_eq_splitOn, joinSlashes_eq_intercalate, List.splitOn_intercalate _ hslash hne]

theorem joinSlashes_splitSlashes (s : List Char) : joinSlashes (splitSlashes s) = s := by
  rw [splitSlashes_eq_splitOn, joinSlashes_eq_intercalate, List.intercalate_splitOn]

theorem splitSlashes_append_slash (s t : List Char) :
    splitSlashes (s ++ '/' :: t) = splitSlashes s ++ splitSlashes t := by
  simp only [splitSlashes_eq_splitOn, List.splitOn_append_cons_self]

theorem not_mem_of_mem_splitSlashes {s part : List Char} (h : part ∈ splitSlashes s) :
    '/' ∉ part := by
  induction s generalizing part with
  | nil =>
    obtain rfl : part = [] := by simpa [splitSlashes] using h
    exact List.not_mem_nil
  | cons c cs ih =>
    rw [splitSlashes_eq_splitOn, List.splitOn_cons_eq_if_modifyHead, ← splitSlashes_eq_splitOn] at h
    split at h
    · rcases List.mem_cons.mp h with rfl | h
      · exact List.not_mem_nil
      · exact ih h
    · next hc =>
      cases hs : splitSlashes cs with
      | nil => simp [hs] at h
      | cons first rest =>
        rw [hs] at h ih
        rcases List.mem_cons.mp h with rfl | h
        · have hfirst := ih List.mem_cons_self
          simp only [List.mem_cons, not_or]
          exact ⟨fun h => hc (by simp [← h]), hfirst⟩
        · exact ih (List.mem_cons_of_mem _ h)

theorem joinSlashes_append_cons (front : List (List Char)) (part : List Char)
    (rest : List (List Char)) : joinSlashes (front ++ part :: rest) =
      front.flatMap (· ++ ['/']) ++ joinSlashes (part :: rest) := by
  induction front with
  | nil => rfl
  | cons first front ih =>
    have hne : front ++ part :: rest ≠ [] := by simp
    rw [joinSlashes_eq_intercalate, List.cons_append, List.intercalate_cons_of_ne_nil hne,
      ← joinSlashes_eq_intercalate, ih]
    simp

theorem joinSlashes_concat (front : List (List Char)) (last : List Char) :
    joinSlashes (front ++ [last]) = front.flatMap (· ++ ['/']) ++ last :=
  joinSlashes_append_cons front last []

/-- The parts of a text and the text by its last part. -/
theorem splitSlashes_eq_concat_iff {s last : List Char} {front : List (List Char)} :
    splitSlashes s = front ++ [last] ↔
      s = front.flatMap (· ++ ['/']) ++ last ∧ ∀ part ∈ front ++ [last], '/' ∉ part := by
  constructor
  · intro h
    refine ⟨?_, fun part hpart => not_mem_of_mem_splitSlashes (h ▸ hpart)⟩
    rw [← joinSlashes_splitSlashes s, h, joinSlashes_concat]
  · rintro ⟨rfl, hslash⟩
    rw [← joinSlashes_concat, splitSlashes_joinSlashes (by simp) hslash]

/-! The parts of a path. -/

theorem parts_ne_nil (p : Path) : p.parts ≠ [] := by
  rw [parts, splitSlashes_eq_splitOn]
  exact List.splitOn_ne_nil _ _

theorem parts_injective : Function.Injective parts := fun p q h => by
  have htext : p.text.toList = q.text.toList := by
    rw [← joinSlashes_splitSlashes p.text.toList, ← joinSlashes_splitSlashes q.text.toList]
    exact congrArg joinSlashes h
  cases p
  cases q
  exact congrArg Path.mk (String.toList_injective htext)

theorem exists_parts_eq_concat (p : Path) : ∃ front last, p.parts = front ++ [last] :=
  ⟨_, _, (List.dropLast_append_getLast p.parts_ne_nil).symm⟩

theorem parts_eq_concat_iff {p : Path} {front : List (List Char)} {last : List Char} :
    p.parts = front ++ [last] ↔
      p.text.toList = front.flatMap (· ++ ['/']) ++ last ∧ ∀ part ∈ front ++ [last], '/' ∉ part :=
  splitSlashes_eq_concat_iff

theorem text_of_parts_nil {p : Path} (h : p.parts = [[]]) : p.text = "" := by
  rw [← List.nil_append [([] : List Char)], parts_eq_concat_iff] at h
  exact String.toList_injective (by simpa using h.1)

theorem parts_ofParts {parts : List (List Char)} (hne : parts ≠ []) (hroot : parts ≠ [[]])
    (hslash : ∀ part ∈ parts, '/' ∉ part) : (ofParts parts).parts = parts := by
  rw [ofParts]
  · rw [Path.parts, String.toList_ofList, splitSlashes_joinSlashes hne hslash]
  · exact hroot

theorem isAbsolute_iff {p : Path} :
    p.isAbsolute = true ↔ ∃ part rest, p.parts = [] :: part :: rest := by
  rw [isAbsolute, parts]
  cases hs : p.text.toList with
  | nil => simp [splitSlashes]
  | cons c cs =>
    by_cases hc : c = '/'
    · subst hc
      have hne : splitSlashes cs ≠ [] := by
        rw [splitSlashes_eq_splitOn]
        exact List.splitOn_ne_nil _ _
      obtain ⟨part, rest, hcs⟩ := List.exists_cons_of_ne_nil hne
      simp [splitSlashes, hcs]
    · cases hcs : splitSlashes cs with
      | nil => simp [splitSlashes, hcs, hc]
      | cons part rest => simp [splitSlashes, hcs, hc]

/-! Joining. -/

/-- The parts that a path puts before those of a path that is joined to it. -/
def front (base : Path) : List (List Char) :=
  if base.parts.getLast? = some [] then base.parts.dropLast else base.parts

theorem front_of_parts_nil {base : Path} {front : List (List Char)}
    (h : base.parts = front ++ [[]]) : base.front = front := by
  simp [Path.front, h]

theorem front_of_parts {base : Path} {front : List (List Char)} {last : List Char}
    (h : base.parts = front ++ [last]) (hlast : last ≠ []) : base.front = front ++ [last] := by
  simp [Path.front, h, hlast]

theorem parts_join {p : Path} (hp : p.isAbsolute = false) (base : Path) :
    (base.join p).parts = base.front ++ p.parts := by
  obtain ⟨front, last, hbase⟩ := base.exists_parts_eq_concat
  obtain ⟨front', last', hparts⟩ := p.exists_parts_eq_concat
  obtain ⟨htext, hslash⟩ := parts_eq_concat_iff.mp hbase
  obtain ⟨htext', hslash'⟩ := parts_eq_concat_iff.mp hparts
  by_cases hlast : last = []
  · subst hlast
    rw [front_of_parts_nil hbase, hparts, ← List.append_assoc, parts_eq_concat_iff]
    constructor
    · rcases List.eq_nil_or_concat front with rfl | ⟨init, part, rfl⟩
      · have hempty : base.text = "" := String.toList_injective (by simpa using htext)
        simpa [join, hempty] using htext'
      · have hne : base.text ≠ "" := fun h => by simp [h] at htext
        simp [join, hp, hne, htext, htext']
    · rw [List.append_assoc, List.forall_mem_append]
      exact ⟨fun part h => hslash part (by simp [h]), hslash'⟩
  · rw [front_of_parts hbase hlast, hparts, ← List.append_assoc, parts_eq_concat_iff]
    have hne : base.text ≠ "" := fun h => by simp [h, hlast] at htext
    have hend : base.text.toList.getLast? ≠ some '/' := by
      rw [htext, List.getLast?_append_of_ne_nil _ hlast]
      exact fun h => hslash last (by simp) (List.mem_of_getLast? h)
    have hjoin : base.join p = ⟨base.text ++ "/" ++ p.text⟩ := by
      rw [join, if_neg (by simp [hp, hne])]
      split
      · next h => exact absurd h hend
      · rfl
    constructor
    · simp [hjoin, htext, htext']
    · rw [List.append_assoc _ front', List.forall_mem_append]
      exact ⟨hslash, hslash'⟩

theorem text_join_ne_empty {base p : Path} (h : p.text ≠ "") : (base.join p).text ≠ "" := by
  rw [join]
  split
  · exact h
  · split <;> simp [h]

theorem front_eq_nil_cons_iff {base : Path} :
    (∃ rest, base.front = [] :: rest) ↔ base.isAbsolute = true := by
  rw [isAbsolute_iff]
  obtain ⟨front, last, hbase⟩ := base.exists_parts_eq_concat
  by_cases hlast : last = []
  · subst hlast
    rw [front_of_parts_nil hbase, hbase]
    rcases front with _ | ⟨part, _ | ⟨part', front⟩⟩ <;> simp
  · rw [front_of_parts hbase hlast, hbase]
    rcases front with _ | ⟨part, _ | ⟨part', front⟩⟩ <;> simp [hlast]

/-- What is below a path is absolute if that is. -/
theorem isAbsolute_of_parts {p base : Path} {names : List (List Char)}
    (h : p.parts = base.front ++ names) (hne : names ≠ []) (hnames : ∀ name ∈ names, IsName name) :
    p.isAbsolute = base.isAbsolute := by
  obtain ⟨name, rest, rfl⟩ := List.exists_cons_of_ne_nil hne
  have hname : name ≠ [] := (hnames name List.mem_cons_self).ne_nil
  rw [Bool.eq_iff_iff, isAbsolute_iff, ← front_eq_nil_cons_iff, h]
  rcases base.front with _ | ⟨first, _ | ⟨second, front⟩⟩ <;> simp [hname]

/-! The names at the end of a path. -/

/-- A path below another. -/
def descend (base : Path) (names : List String) : Path :=
  names.foldl (fun p name => p.join ⟨name⟩) base

@[simp] theorem descend_nil (base : Path) : base.descend [] = base := rfl

@[simp] theorem descend_cons (base : Path) (name : String) (names : List String) :
    base.descend (name :: names) = (base.join ⟨name⟩).descend names := rfl

theorem parts_of_part {part : String} (hslash : '/' ∉ part.toList) :
    (⟨part⟩ : Path).parts = [part.toList] ∧ (⟨part⟩ : Path).isAbsolute = false := by
  have hparts : (⟨part⟩ : Path).parts = [part.toList] := by
    rw [parts, splitSlashes_eq_splitOn, List.splitOn_eq_singleton hslash]
  refine ⟨hparts, ?_⟩
  rw [Bool.eq_false_iff, ne_eq, isAbsolute_iff, hparts]
  simp

theorem parts_join_part {part : String} (hslash : '/' ∉ part.toList) (base : Path) :
    (base.join ⟨part⟩).parts = base.front ++ [part.toList] := by
  obtain ⟨hparts, habsolute⟩ := parts_of_part hslash
  rw [parts_join habsolute, hparts]

theorem parts_join_name {name : String} (h : IsName name.toList) (base : Path) :
    (base.join ⟨name⟩).parts = base.front ++ [name.toList] :=
  parts_join_part h.2.2 base

theorem front_join_name {name : String} (h : IsName name.toList) (base : Path) :
    (base.join ⟨name⟩).front = base.front ++ [name.toList] :=
  front_of_parts (parts_join_name h base) h.ne_nil

theorem front_descend {names : List String} (h : ∀ name ∈ names, IsName name.toList)
    (base : Path) : (base.descend names).front = base.front ++ names.map String.toList := by
  induction names generalizing base with
  | nil => simp
  | cons name names ih =>
    obtain ⟨hname, hnames⟩ := List.forall_mem_cons.mp h
    rw [descend_cons, ih hnames, front_join_name hname]
    simp

theorem descend_injective {names names' : List String} (h : ∀ name ∈ names, IsName name.toList)
    (h' : ∀ name ∈ names', IsName name.toList) {base : Path}
    (heq : base.descend names = base.descend names') : names = names' := by
  have hfront := congrArg front heq
  rw [front_descend h, front_descend h'] at hfront
  exact List.map_injective_iff.mpr (fun _ _ => String.toList_injective)
    (List.append_cancel_left hfront)

theorem descend_concat (base : Path) (names : List String) (name : String) :
    base.descend (names ++ [name]) = (base.descend names).join ⟨name⟩ := by
  simp [descend]

theorem parts_descend_concat {names : List String} {name : String}
    (h : ∀ name ∈ names, IsName name.toList) (hname : IsName name.toList) (base : Path) :
    (base.descend (names ++ [name])).parts =
      base.front ++ names.map String.toList ++ [name.toList] := by
  rw [descend_concat, parts_join_name hname, front_descend h]

/-! Components. -/

/-- The component for the first part of a path. -/
def firstComponent (part : List Char) (alone : Bool) : List Component :=
  if part = [] then if alone then [] else [.root]
  else if part = ['.'] then [.here]
  else (componentOf part).toList

theorem components_of_cons {p : Path} {part : List Char} {rest : List (List Char)}
    (h : p.parts = part :: rest) :
    p.components = firstComponent part rest.isEmpty ++ rest.filterMap componentOf := by
  rw [components, h, firstComponent]
  split
  · next heq => 
    obtain ⟨rfl, rfl⟩ := List.cons.inj heq
    simp
  · next heq => 
    obtain ⟨rfl, rfl⟩ := List.cons.inj heq
    simp
  · next hroot hhere =>
    have h1 : part ≠ [] := fun h => hroot rest (by rw [h])
    have h2 : part ≠ ['.'] := fun h => hhere rest (by rw [h])
    rw [if_neg h1, if_neg h2, List.filterMap_cons]
    cases componentOf part <;> rfl

theorem componentOf_name {name : String} (h : IsName name.toList) :
    componentOf name.toList = some (.name name) := by
  simp [componentOf, h.1, h.2.1]

theorem exists_front_eq_cons {base : Path} (hbase : base.text ≠ "") {part : List Char}
    {rest : List (List Char)} (h : base.parts = part :: rest) :
    ∃ rest', base.front = part :: rest' ∧
      rest'.filterMap componentOf = rest.filterMap componentOf := by
  obtain ⟨front, last, hparts⟩ := base.exists_parts_eq_concat
  by_cases hlast : last = []
  · subst hlast
    rw [front_of_parts_nil hparts]
    rw [hparts] at h
    cases front with
    | nil => exact absurd (text_of_parts_nil hparts) hbase
    | cons first front =>
      obtain ⟨rfl, rfl⟩ := List.cons.inj h
      exact ⟨front, rfl, by simp [List.filterMap_append, componentOf, isHollow]⟩
  · exact ⟨rest, by rw [front_of_parts hparts hlast, ← hparts, h], rfl⟩

/-- Joining adds the components of a path that is not absolute; a dot at its start names nothing
any more. -/
theorem components_join {base p : Path} (hbase : base.text ≠ "") (hp : p.isAbsolute = false) :
    (base.join p).components = base.components ++ p.parts.filterMap componentOf := by
  obtain ⟨part, rest, hparts⟩ := List.exists_cons_of_ne_nil base.parts_ne_nil
  obtain ⟨rest', hfront, hrest⟩ := exists_front_eq_cons hbase hparts
  have hjoin : (base.join p).parts = part :: (rest' ++ p.parts) := by
    rw [parts_join hp, hfront, List.cons_append]
  have hfirst : firstComponent part rest.isEmpty = firstComponent part false := by
    cases rest with
    | cons second rest => rfl
    | nil =>
      have hpart : part ≠ [] := fun hnil => hbase (text_of_parts_nil (hnil ▸ hparts))
      simp [firstComponent, hpart]
  have halone : (rest' ++ p.parts).isEmpty = false := by simp [p.parts_ne_nil]
  rw [components_of_cons hjoin, components_of_cons hparts, hfirst, ← hrest, List.filterMap_append,
    halone, List.append_assoc]

theorem components_join_name {base : Path} {name : String} (hbase : base.text ≠ "")
    (h : IsName name.toList) :
    (base.join ⟨name⟩).components = base.components ++ [.name name] := by
  obtain ⟨hparts, habsolute⟩ := parts_of_part h.2.2
  rw [components_join hbase habsolute, hparts, List.filterMap_cons, componentOf_name h,
    List.filterMap_nil]

theorem components_descend {base : Path} {names : List String} (hbase : base.text ≠ "")
    (h : ∀ name ∈ names, IsName name.toList) :
    (base.descend names).components = base.components ++ names.map .name := by
  induction names generalizing base with
  | nil => simp
  | cons name names ih =>
    obtain ⟨hname, hnames⟩ := List.forall_mem_cons.mp h
    have hne : (⟨name⟩ : Path).text ≠ "" := fun h => hname.ne_nil (by simp [show name = "" from h])
    rw [descend_cons, ih (text_join_ne_empty hne) hnames, components_join_name hbase hname]
    simp

/-- What is below a path is found again from there. -/
theorem relativeTo_descend {base : Path} {names : List String} (hbase : base.text ≠ "")
    (h : ∀ name ∈ names, IsName name.toList) :
    (base.descend names).relativeTo base = some (ofParts (names.map String.toList)) := by
  have hpre : base.components.isPrefixOf (base.descend names).components = true := by
    rw [components_descend hbase h, List.isPrefixOf_iff_prefix]
    exact List.prefix_append _ _
  have hrest : (base.descend names).components.drop base.components.length =
      names.map .name := by
    rw [components_descend hbase h, List.drop_left]
  rw [relativeTo, hrest]
  simp only [hpre, if_true, List.filterMap_map]
  simp

/-! The last part. -/

theorem body_of_hollow {p : Path} {front hollow : List (List Char)} {last : List Char}
    (h : p.parts = front ++ last :: hollow) (hlast : isHollow last = false)
    (hhollow : ∀ part ∈ hollow, isHollow part = true) :
    ∃ start mid, front = start ++ mid ∧ p.body = (start, mid ++ [last]) := by
  have hstrip : ∀ mid : List (List Char),
      ((mid ++ last :: hollow).reverse.dropWhile isHollow).reverse = mid ++ [last] := fun mid => by
    have hreverse : ∀ part ∈ hollow.reverse, isHollow part = true := by simpa using hhollow
    rw [List.reverse_append, List.reverse_cons, List.append_assoc,
      List.dropWhile_append_of_pos hreverse]
    simp [hlast]
  obtain ⟨hnil, hdot⟩ : last ≠ [] ∧ last ≠ ['.'] := by simpa [isHollow] using hlast
  rw [body, h]
  split
  · next part rest heq =>
    cases front with
    | nil => simp [hnil] at heq
    | cons first front =>
      obtain ⟨rfl, hrest⟩ := List.cons.inj heq
      exact ⟨[[]], front, rfl, Prod.ext rfl (hrest ▸ hstrip front)⟩
  · next rest heq =>
    cases front with
    | nil => simp [hdot] at heq
    | cons first front =>
      obtain ⟨rfl, hrest⟩ := List.cons.inj heq
      exact ⟨[['.']], front, rfl, Prod.ext rfl (hrest ▸ hstrip front)⟩
  · exact ⟨[], front, rfl, Prod.ext rfl (hstrip front)⟩

theorem body_of_parts {p : Path} {front : List (List Char)} {last : List Char}
    (h : p.parts = front ++ [last]) (hlast : isHollow last = false) :
    ∃ start mid, front = start ++ mid ∧ p.body = (start, mid ++ [last]) :=
  body_of_hollow h hlast (List.forall_mem_nil _)

theorem fileNameChars_of_hollow {p : Path} {front hollow : List (List Char)} {name : List Char}
    (h : p.parts = front ++ name :: hollow) (hname : IsName name)
    (hhollow : ∀ part ∈ hollow, isHollow part = true) : p.fileNameChars = some name := by
  obtain ⟨start, mid, -, hbody⟩ := body_of_hollow h hname.1 hhollow
  simp [fileNameChars, hbody, hname.2.1]

theorem fileNameChars_of_parts {p : Path} {front : List (List Char)} {name : List Char}
    (h : p.parts = front ++ [name]) (hname : IsName name) : p.fileNameChars = some name :=
  fileNameChars_of_hollow h hname (List.forall_mem_nil _)

theorem fileNameChars_of_parts_up {p : Path} {front : List (List Char)}
    (h : p.parts = front ++ [['.', '.']]) : p.fileNameChars = none := by
  obtain ⟨start, mid, -, hbody⟩ := body_of_parts h (by decide)
  simp [fileNameChars, hbody]

/-! Stems and extensions. -/

theorem splitName_eq (name : List Char) :
    splitName name =
      ((Attachment.splitExtension name).1, (Attachment.splitExtension name).2.tail?) := by
  simp only [splitName, Attachment.splitExtension]
  split
  · next h => rw [h]; simp
  · split <;> rfl

theorem splitName_dot {stem extension : List Char} (hstem : stem ≠ []) (hext : '.' ∉ extension) :
    splitName (stem ++ '.' :: extension) = (stem, some extension) := by
  rw [splitName_eq, Attachment.splitExtension_dot hext, if_neg (by simpa using hstem)]
  rfl

/-- What a name is made of that has an extension. -/
theorem eq_of_splitName_eq_some {name extension : List Char}
    (h : (splitName name).2 = some extension) :
    name = (splitName name).1 ++ '.' :: extension ∧ (splitName name).1 ≠ [] ∧ '.' ∉ extension := by
  by_cases hdot : '.' ∈ name
  · obtain ⟨stem, extension', hext, rfl⟩ := Attachment.eq_of_mem_dot hdot
    by_cases hstem : stem = []
    · subst hstem
      rw [splitName_eq, Attachment.splitExtension_dot hext] at h
      simp at h
    · rw [splitName_dot hstem hext] at h ⊢
      obtain rfl : extension' = extension := Option.some.inj h
      exact ⟨rfl, hstem, hext⟩
  · rw [splitName_eq, Attachment.splitExtension_of_not_mem hdot] at h
    simp at h

theorem splitName_fst_subset (name : List Char) : (splitName name).1 ⊆ name := by
  rw [splitName_eq]
  conv => rhs; rw [← Attachment.splitExtension_append name]
  exact List.subset_append_left _ _

theorem parts_setExtension_of_hollow {p : Path} {front hollow : List (List Char)}
    {name : List Char} {extension : String} (h : p.parts = front ++ name :: hollow)
    (hname : IsName name) (hhollow : ∀ part ∈ hollow, isHollow part = true)
    (hext : '/' ∉ extension.toList) :
    (p.setExtension extension).parts =
      front ++ [(splitName name).1 ++ ['.'] ++ extension.toList] := by
  obtain ⟨start, mid, rfl, hbody⟩ := body_of_hollow h hname.1 hhollow
  have hfront : ∀ part ∈ start ++ mid, '/' ∉ part := fun part hpart =>
    not_mem_of_mem_splitSlashes (h ▸ List.mem_append_left _ hpart)
  have hset : p.setExtension extension =
      ofParts (start ++ mid ++ [(splitName name).1 ++ ['.'] ++ extension.toList]) := by
    simp [setExtension, fileNameChars_of_hollow h hname hhollow, hbody]
  rw [hset, parts_ofParts (by simp)]
  · intro heq
    have hlast := congrArg List.getLast? heq
    simp at hlast
  · rw [List.forall_mem_append, List.forall_mem_singleton]
    refine ⟨hfront, fun hmem => ?_⟩
    simp only [List.mem_append, List.mem_singleton] at hmem
    rcases hmem with (hmem | hmem) | hmem
    · exact hname.2.2 (splitName_fst_subset name hmem)
    · exact absurd hmem (by decide)
    · exact hext hmem

theorem parts_setExtension {p : Path} {front : List (List Char)} {name : List Char}
    {extension : String} (h : p.parts = front ++ [name]) (hname : IsName name)
    (hext : '/' ∉ extension.toList) :
    (p.setExtension extension).parts =
      front ++ [(splitName name).1 ++ ['.'] ++ extension.toList] :=
  parts_setExtension_of_hollow h hname (List.forall_mem_nil _) hext

theorem text_withoutExtension {p : Path} {front : List (List Char)} {stem old : List Char}
    (h : p.parts = front ++ [stem ++ '.' :: old]) :
    (⟨String.ofList (p.text.toList.take (p.text.length - old.length))⟩ : Path).parts =
      front ++ [stem ++ ['.']] := by
  obtain ⟨htext, hslash⟩ := parts_eq_concat_iff.mp h
  obtain ⟨hfront, hname⟩ := List.forall_mem_append.mp hslash
  have hcut : p.text.toList = front.flatMap (· ++ ['/']) ++ (stem ++ ['.']) ++ old := by
    rw [htext]
    simp
  have hlength : p.text.length - old.length =
      (front.flatMap (· ++ ['/']) ++ (stem ++ ['.'])).length := by
    rw [← String.length_toList, hcut]
    exact Nat.sub_eq_of_eq_add List.length_append
  rw [parts_eq_concat_iff, String.toList_ofList, hlength, hcut, List.take_left]
  refine ⟨rfl, List.forall_mem_append.mpr ⟨hfront, ?_⟩⟩
  rw [List.forall_mem_singleton] at hname ⊢
  simp only [List.mem_append, List.mem_cons, not_or] at hname ⊢
  exact ⟨hname.1, by decide⟩

/-- The name of a file with another extension. A name that starts with two dots and has no other has
a dot for a stem, and without its extension it goes up. -/
def renamed (stem extension : List Char) : List Char :=
  if stem = ['.'] then ['.', '.'] else stem ++ '.' :: extension

theorem append_dot_ne_up {extension : List Char} (hne : extension ≠ []) (hdot : '.' ∉ extension)
    (stem : List Char) : stem ++ '.' :: extension ≠ ['.', '.'] := by
  rcases List.eq_nil_or_concat' extension with rfl | ⟨init, last, rfl⟩
  · exact absurd rfl hne
  · intro heq
    have hlast : stem ++ '.' :: init ++ [last] = ['.'] ++ ['.'] := by simpa using heq
    obtain ⟨-, rfl⟩ := List.append_singleton_inj.mp hlast
    exact hdot (by simp)

theorem renamed_inj {stem stem' extension : List Char} (hne : extension ≠ [])
    (hdot : '.' ∉ extension) : renamed stem extension = renamed stem' extension ↔ stem = stem' := by
  refine ⟨fun heq => ?_, fun heq => by rw [heq]⟩
  rw [renamed, renamed] at heq
  split at heq
  · next h =>
    split at heq
    · next h' => rw [h, h']
    · exact absurd heq.symm (append_dot_ne_up hne hdot stem')
  · split at heq
    · exact absurd heq (append_dot_ne_up hne hdot stem)
    · exact List.append_cancel_right heq

theorem isName_append_dot {stem extension : List Char} (hstem : '/' ∉ stem) (hne : extension ≠ [])
    (hdot : '.' ∉ extension) (hslash : '/' ∉ extension) : IsName (stem ++ '.' :: extension) := by
  refine ⟨?_, append_dot_ne_up hne hdot _, ?_⟩
  · simp [isHollow, List.append_eq_singleton_iff, hne]
  · simp only [List.mem_append, List.mem_cons, not_or]
    exact ⟨hstem, by decide, hslash⟩

theorem isName_renamed {name extension : List Char} (hname : IsName name)
    (hstem : (splitName name).1 ≠ ['.']) (hne : extension ≠ []) (hdot : '.' ∉ extension)
    (hslash : '/' ∉ extension) : IsName (renamed (splitName name).1 extension) := by
  rw [renamed, if_neg hstem]
  exact isName_append_dot (fun hmem => hname.2.2 (splitName_fst_subset name hmem)) hne hdot hslash

theorem parts_withExtension {p : Path} {front : List (List Char)} {name old : List Char}
    {extension : String} (h : p.parts = front ++ [name]) (hname : IsName name)
    (hold : (splitName name).2 = some old) (hext : '/' ∉ extension.toList) :
    (p.withExtension extension).parts =
      front ++ [renamed (splitName name).1 extension.toList] := by
  obtain ⟨heq, hstem, -⟩ := eq_of_splitName_eq_some hold
  have hchars : p.extensionChars = some old := by
    simp [extensionChars, fileNameChars_of_parts h hname, hold]
  have hkept := text_withoutExtension (heq ▸ h)
  simp only [withExtension, hchars]
  by_cases hdots : (splitName name).1 = ['.']
  · rw [hdots] at hkept
    rw [setExtension, fileNameChars_of_parts_up hkept, renamed, if_pos hdots]
    simpa [hdots] using hkept
  · have hkeptName : IsName ((splitName name).1 ++ ['.']) := by
      refine ⟨by simp [isHollow, hstem], ?_, ?_⟩
      · exact fun h => hdots (List.append_cancel_right (h : _ = ['.'] ++ ['.']))
      · rw [List.mem_append, not_or]
        exact ⟨fun hmem => hname.2.2 (splitName_fst_subset name hmem), by decide⟩
    rw [parts_setExtension hkept hkeptName hext, splitName_dot hstem List.not_mem_nil, renamed,
      if_neg hdots]
    simp

/-! The way to a path. -/

/-- A path is on the way to another if it is that path or the parent of one on the way. -/
inductive OnWay (p : Path) : Path → Prop
  | self : OnWay p p
  | parent {q r : Path} (h : OnWay p q) (hparent : q.parent = some r) : OnWay p r

theorem OnWay.of_parent {p parent q : Path} (hparent : p.parent = some parent)
    (h : parent.OnWay q) : p.OnWay q := by
  induction h with
  | self => exact .parent .self hparent
  | parent _ hparent ih => exact .parent ih hparent

theorem onWay_iff {p q : Path} :
    p.OnWay q ↔ q = p ∨ ∃ parent, p.parent = some parent ∧ parent.OnWay q := by
  constructor
  · intro h
    induction h with
    | self => exact .inl rfl
    | parent _ hparent ih =>
      rcases ih with rfl | ⟨parent, hfirst, h⟩
      · exact .inr ⟨_, hparent, .self⟩
      · exact .inr ⟨parent, hfirst, .parent h hparent⟩
  · rintro (rfl | ⟨parent, hparent, h⟩)
    · exact .self
    · exact h.of_parent hparent

end MystNotebook.Path
