import MystNotebook.Proofs.FirstOccurrences
import MystNotebook.Proofs.PathNames
import MystNotebook.Storage.Disk

/-! Where paths lead on a disk. A path that leads somewhere leads to a place that its parts alone
tell, through directories; a disk is well formed, and stays so when an entry is put at such a
place. -/
namespace MystNotebook.Disk

/-! Places. -/

/-- Where a part leads from a place, whatever is there. -/
def step (location : Location) (part : List Char) : Location :=
  if Path.isHollow part then location
  else if part = ['.', '.'] then location.dropLast
  else location ++ [String.ofList part]

def follow (location : Location) (parts : List (List Char)) : Location := parts.foldl step location

/-- The places that parts lead through, and the one they lead to. -/
def stopsFrom : Location → List (List Char) → List Location
  | location, [] => [location]
  | location, part :: rest => location :: stopsFrom (step location part) rest

def start (d : Disk) (p : Path) : Location := if p.isAbsolute then [] else d.workingDirectory

def place (d : Disk) (p : Path) : Location := follow (d.start p) p.parts

def stops (d : Disk) (p : Path) : List Location := stopsFrom (d.start p) p.parts

theorem follow_append (location : Location) (parts parts' : List (List Char)) :
    follow location (parts ++ parts') = follow (follow location parts) parts' :=
  List.foldl_append

theorem follow_name {name : List Char} (h : Path.IsName name) (location : Location) :
    follow location [name] = location ++ [String.ofList name] := by
  simp [follow, step, h.1, h.2.1]

theorem follow_names {names : List (List Char)} (h : ∀ name ∈ names, Path.IsName name)
    (location : Location) : follow location names = location ++ names.map String.ofList := by
  induction names generalizing location with
  | nil => simp [follow]
  | cons name names ih =>
    obtain ⟨hname, hnames⟩ := List.forall_mem_cons.mp h
    rw [← List.singleton_append, follow_append, follow_name hname, ih hnames]
    simp

theorem follow_front (location : Location) (base : Path) :
    follow location base.front = follow location base.parts := by
  obtain ⟨front, last, hparts⟩ := base.exists_parts_eq_concat
  by_cases hlast : last = []
  · subst hlast
    rw [Path.front_of_parts_nil hparts, hparts, follow_append]
    simp [follow, step, Path.isHollow]
  · rw [Path.front_of_parts hparts hlast, hparts]

/-- Names lead from the place of a path to what is below it. -/
theorem place_of_parts {d : Disk} {p base : Path} {names : List (List Char)}
    (h : p.parts = base.front ++ names) (hne : names ≠ [])
    (hnames : ∀ name ∈ names, Path.IsName name) :
    d.place p = d.place base ++ names.map String.ofList := by
  rw [place, start, Path.isAbsolute_of_parts h hne hnames, h, follow_append, follow_front,
    follow_names hnames]
  rfl

theorem follow_slashes {s : List Char} (h : ∀ c ∈ s, c = '/') (location : Location) :
    follow location (Path.splitSlashes s) = location := by
  induction s with
  | nil => rfl
  | cons c s ih =>
    obtain ⟨rfl, hs⟩ := List.forall_mem_cons.mp h
    exact ih hs

/-- Slashes at the end lead nowhere else. -/
theorem place_withoutSlashes {p : Path} (h : (withoutSlashes p).text ≠ "") (d : Disk) :
    d.place (withoutSlashes p) = d.place p := by
  have htext : p.text.toList = (withoutSlashes p).text.toList ++
      (p.text.toList.reverse.takeWhile (· == '/')).reverse := by
    rw [withoutSlashes, String.toList_ofList, ← List.reverse_append,
      List.takeWhile_append_dropWhile, List.reverse_reverse]
  have hslashes : ∀ c ∈ (p.text.toList.reverse.takeWhile (· == '/')).reverse, c = '/' :=
    fun c hc => by simpa using List.mem_takeWhile_imp (List.mem_reverse.mp hc)
  generalize (p.text.toList.reverse.takeWhile (· == '/')).reverse = slashes at htext hslashes
  generalize withoutSlashes p = q at htext h
  cases slashes with
  | nil =>
    have hpath : p = q := Path.parts_injective (by rw [Path.parts, htext, List.append_nil]; rfl)
    rw [hpath]
  | cons c slashes =>
    obtain ⟨rfl, hrest⟩ := List.forall_mem_cons.mp hslashes
    have hparts : p.parts = q.parts ++ Path.splitSlashes slashes := by
      rw [Path.parts, htext, Path.splitSlashes_append_slash]
      rfl
    have habsolute : p.isAbsolute = q.isAbsolute := by
      obtain ⟨part, rest, hq⟩ := List.exists_cons_of_ne_nil q.parts_ne_nil
      have hne : part = [] → rest ≠ [] := by
        rintro rfl rfl
        exact h (Path.text_of_parts_nil hq)
      rw [Bool.eq_iff_iff, Path.isAbsolute_iff, Path.isAbsolute_iff, hparts, hq]
      cases rest with
      | nil => simpa using fun hpart => absurd rfl (hne hpart)
      | cons next rest => simp
    rw [place, place, start, start, habsolute, hparts, follow_append, follow_slashes hrest]

/-! Walks. -/

/-- One part of a walk; only what is at the place decides. -/
def enter (d : Disk) (location : Location) (part : List Char) : Except StorageError Location :=
  match d.entry? location with
  | none => .error .notFound
  | some (.file _) => .error .notADirectory
  | some .directory =>
    if 255 < (String.ofList part).utf8ByteSize then .error .nameTooLong
    else .ok (step location part)

theorem walk_cons (d : Disk) (location : Location) (part : List Char) (rest : List (List Char)) :
    d.walk location (part :: rest) = (d.enter location part).bind (d.walk · rest) := by
  rw [walk, enter]
  cases d.entry? location with
  | none => rfl
  | some e =>
    cases e with
    | file bytes => rfl
    | directory =>
      dsimp only
      by_cases hhollow : Path.isHollow part = true
      · have hshort : ¬ 255 < (String.ofList part).utf8ByteSize := by
          have hpart : part = [] ∨ part = ['.'] := by simpa [Path.isHollow] using hhollow
          rcases hpart with rfl | rfl <;> decide
        rw [if_pos hhollow, if_neg hshort, step, if_pos hhollow]
        rfl
      · by_cases hup : part = ['.', '.']
        · subst hup
          rfl
        · rw [if_neg hhollow, if_neg hup, step, if_neg hhollow, if_neg hup]
          split <;> rfl

theorem enter_eq_ok {d : Disk} {location l : Location} {part : List Char}
    (h : d.enter location part = .ok l) :
    d.entry? location = some .directory ∧ l = step location part := by
  rw [enter] at h
  split at h
  · cases h
  · cases h
  · next hdir =>
    split at h
    · cases h
    · exact ⟨hdir, (Except.ok.inj h).symm⟩

theorem walk_cons_eq_ok {d : Disk} {location l : Location} {part : List Char}
    {rest : List (List Char)} (h : d.walk location (part :: rest) = .ok l) :
    d.entry? location = some .directory ∧ d.walk (step location part) rest = .ok l := by
  rw [walk_cons] at h
  cases henter : d.enter location part with
  | error e => simp [henter, Except.bind] at h
  | ok next =>
    obtain ⟨hdir, rfl⟩ := enter_eq_ok henter
    rw [henter] at h
    exact ⟨hdir, h⟩

theorem walk_append {d : Disk} {location : Location} (parts parts' : List (List Char)) :
    d.walk location (parts ++ parts') = (d.walk location parts).bind (d.walk · parts') := by
  induction parts generalizing location with
  | nil => rfl
  | cons part parts ih =>
    rw [List.cons_append, walk_cons, walk_cons]
    cases d.enter location part with
    | error e => rfl
    | ok next => exact ih

/-- A walk that goes through ends where the parts lead. -/
theorem eq_follow_of_walk {d : Disk} {location l : Location} {parts : List (List Char)}
    (h : d.walk location parts = .ok l) : l = follow location parts := by
  induction parts generalizing location with
  | nil => exact (Except.ok.inj h).symm
  | cons part parts ih => exact ih (walk_cons_eq_ok h).2

theorem walk_of_locate {d : Disk} {p : Path} {l : Location} (h : d.locate p = .ok l) :
    d.walk (d.start p) p.parts = .ok l := by
  simp only [locate] at h
  split at h
  · cases h
  · split at h
    · cases h
    · split at h
      · cases h
      · exact h

theorem eq_place_of_locate {d : Disk} {p : Path} {l : Location} (h : d.locate p = .ok l) :
    l = d.place p :=
  eq_follow_of_walk (walk_of_locate h)

theorem text_ne_of_locate {d : Disk} {p : Path} {l : Location} (h : d.locate p = .ok l) :
    p.text ≠ "" := by
  rintro hempty
  simp [locate, hempty] at h

/-! Entries. -/

@[simp] theorem entry?_nil (d : Disk) : d.entry? [] = some .directory := rfl

theorem entry?_of_ne_nil (d : Disk) {l : Location} (h : l ≠ []) :
    d.entry? l = d.entries.lookup l := by
  simp [ entry?, h]

theorem lookup_put (l l' : Location) (e : Entry) (entries : List (Location × Entry)) :
    (put l e entries).lookup l' = if l' = l then some e else entries.lookup l' := by
  induction entries with
  | nil =>
    by_cases h : l' = l
    · simp [put, h]
    · simp [put, List.lookup_cons, beq_false_of_ne h, h]
  | cons entry entries ih =>
    obtain ⟨m, x⟩ := entry
    by_cases hm : m = l
    · subst hm
      by_cases h : l' = m
      · simp [put, h]
      · simp [put, List.lookup_cons, beq_false_of_ne h, h]
    · rw [put, if_neg hm, List.lookup_cons, List.lookup_cons, ih]
      by_cases h : l' = m
      · subst h
        simp [hm]
      · simp [beq_false_of_ne h]

theorem entry?_set {d : Disk} {l : Location} (hl : l ≠ []) (e : Entry) (l' : Location) :
    entry? (d.set l e) l' = if l' = l then some e else d.entry? l' := by
  by_cases h : l' = []
  · subst h
    simp [Ne.symm hl]
  · rw [entry?_of_ne_nil _ h, entry?_of_ne_nil _ h, set, lookup_put]

/-! Directories on the way. -/

/-- Whether all places above one are directories. -/
def Anchored (d : Disk) (location : Location) : Prop :=
  ∀ above name, above ++ [name] <+: location → d.entry? above = some .directory

theorem Anchored.dropLast {d : Disk} {location : Location} (h : d.Anchored location) :
    d.Anchored location.dropLast :=
  fun above name hpre => h above name (hpre.trans (List.dropLast_prefix _))

theorem Anchored.concat {d : Disk} {location : Location} (h : d.Anchored location)
    (hdir : d.entry? location = some .directory) (name : String) :
    d.Anchored (location ++ [name]) := by
  intro above name' hpre
  rcases List.prefix_concat_iff.mp hpre with heq | hpre
  · rw [(List.append_inj' heq rfl).1]
    exact hdir
  · exact h above name' hpre

theorem Anchored.step {d : Disk} {location : Location} (h : d.Anchored location)
    (hdir : d.entry? location = some .directory) (part : List Char) :
    d.Anchored (step location part) := by
  rw [Disk.step]
  split
  · exact h
  · split
    · exact h.dropLast
    · exact h.concat hdir _

theorem Anchored.walk {d : Disk} {location l : Location} {parts : List (List Char)}
    (h : d.Anchored location) (hw : d.walk location parts = .ok l) : d.Anchored l := by
  induction parts generalizing location with
  | nil => exact Except.ok.inj hw ▸ h
  | cons part parts ih =>
    obtain ⟨hdir, hrest⟩ := walk_cons_eq_ok hw
    exact ih (h.step hdir part) hrest

/-- A path that goes up at its end leads to a directory. -/
theorem entry?_place_of_parts_up {d : Disk} {p : Path} {front : List (List Char)}
    (hstart : d.Anchored (d.start p)) (hparts : p.parts = front ++ [['.', '.']])
    (hlocate : d.locate p = .ok (d.place p)) : d.entry? (d.place p) = some .directory := by
  have hwalk := walk_of_locate hlocate
  rw [hparts, walk_append] at hwalk
  cases hfront : d.walk (d.start p) front with
  | error e => simp [hfront, Except.bind] at hwalk
  | ok l =>
    rw [hfront] at hwalk
    obtain ⟨-, hend⟩ := walk_cons_eq_ok hwalk
    have hplace : l.dropLast = d.place p := Except.ok.inj hend
    rw [← hplace]
    rcases List.eq_nil_or_concat' l with rfl | ⟨above, name, rfl⟩
    · rfl
    · rw [List.dropLast_concat]
      exact hstart.walk hfront above name List.prefix_rfl

/-! Well-formed disks. -/

/-- What holds of every disk: entries have names, each is there once and in a directory, and so is
the place where relative paths begin. -/
structure WellFormed (d : Disk) : Prop where
  names : ∀ entry ∈ d.entries, ∀ name ∈ entry.1, Path.IsName name.toList
  distinct : (d.entries.map Prod.fst).Nodup
  parents : ∀ entry ∈ d.entries, d.entry? entry.1.dropLast = some .directory
  workingDirectory : d.entry? d.workingDirectory = some .directory

theorem WellFormed.entry?_dropLast {d : Disk} (h : d.WellFormed) {l : Location} {e : Entry}
    (hl : d.entry? l = some e) : d.entry? l.dropLast = some .directory := by
  by_cases hnil : l = []
  · subst hnil
    rfl
  · rw [entry?_of_ne_nil d hnil] at hl
    exact h.parents (l, e) (mem_of_lookup hl)

theorem WellFormed.anchored {d : Disk} (h : d.WellFormed) {l : Location}
    (hl : d.entry? l = some .directory) : d.Anchored l := by
  induction l using List.reverseRecOn with
  | nil =>
    intro above name hpre
    simp at hpre
  | append_singleton l last ih =>
    have hdir : d.entry? l = some .directory := by simpa using h.entry?_dropLast hl
    exact (ih hdir).concat hdir last

theorem WellFormed.anchored_start {d : Disk} (h : d.WellFormed) (p : Path) :
    d.Anchored (d.start p) := by
  rw [start]
  split
  · exact h.anchored rfl
  · exact h.anchored h.workingDirectory

theorem WellFormed.isName_of_entry? {d : Disk} (h : d.WellFormed) {l : Location} {e : Entry}
    (hl : d.entry? l = some e) : ∀ name ∈ l, Path.IsName name.toList := by
  by_cases hnil : l = []
  · simp [hnil]
  · rw [entry?_of_ne_nil d hnil] at hl
    exact h.names (l, e) (mem_of_lookup hl)

theorem isName_follow {location : Location} {parts : List (List Char)}
    (hparts : ∀ part ∈ parts, '/' ∉ part) (h : ∀ name ∈ location, Path.IsName name.toList) :
    ∀ name ∈ follow location parts, Path.IsName name.toList := by
  induction parts generalizing location with
  | nil => exact h
  | cons part parts ih =>
    obtain ⟨hslash, hparts⟩ := List.forall_mem_cons.mp hparts
    refine ih hparts (?_ : ∀ name ∈ step location part, Path.IsName name.toList)
    rw [step]
    split
    · exact h
    · split
      · exact fun name hname => h name (List.dropLast_subset _ hname)
      · next hhollow hup =>
        refine List.forall_mem_append.mpr ⟨h, List.forall_mem_singleton.mpr ?_⟩
        rw [String.toList_ofList]
        exact ⟨by simpa using hhollow, hup, hslash⟩

theorem WellFormed.isName_place {d : Disk} (h : d.WellFormed) (p : Path) :
    ∀ name ∈ d.place p, Path.IsName name.toList := by
  refine isName_follow (fun part hpart => Path.not_mem_of_mem_splitSlashes hpart) ?_
  rw [start]
  split
  · simp
  · exact h.isName_of_entry? h.workingDirectory

theorem mem_put {l : Location} {e : Entry} {entries : List (Location × Entry)}
    {entry : Location × Entry} (h : entry ∈ put l e entries) :
    entry = (l, e) ∨ entry ∈ entries := by
  induction entries with
  | nil => exact .inl (List.mem_singleton.mp h)
  | cons first entries ih =>
    obtain ⟨m, x⟩ := first
    rw [put] at h
    split at h
    · next hm =>
      subst hm
      exact (List.mem_cons.mp h).imp_right (List.mem_cons_of_mem _)
    · rcases List.mem_cons.mp h with rfl | h
      · exact .inr List.mem_cons_self
      · exact (ih h).imp_right (List.mem_cons_of_mem _)

theorem nodup_put {l : Location} {e : Entry} {entries : List (Location × Entry)}
    (h : (entries.map Prod.fst).Nodup) : ((put l e entries).map Prod.fst).Nodup := by
  induction entries with
  | nil => exact List.nodup_singleton l
  | cons first entries ih =>
    obtain ⟨m, x⟩ := first
    obtain ⟨hnew, hrest⟩ := List.nodup_cons.mp h
    rw [put]
    split
    · next hm =>
      subst hm
      exact h
    · next hm =>
      refine List.nodup_cons.mpr ⟨fun hmem => ?_, ih hrest⟩
      obtain ⟨entry, hentry, heq⟩ := List.mem_map.mp hmem
      rcases mem_put hentry with rfl | hentry
      · exact hm heq.symm
      · exact hnew (heq ▸ List.mem_map_of_mem hentry)

/-- A disk stays well formed when an entry is put where a path leads. -/
theorem WellFormed.set {d : Disk} (h : d.WellFormed) {p : Path} {l : Location}
    (hlocate : d.locate p = .ok l) (hl : d.entry? l ≠ some .directory) (e : Entry) :
    (d.set l e).WellFormed := by
  have hnil : l ≠ [] := fun h => hl (h ▸ d.entry?_nil)
  have hdirectory : ∀ l', d.entry? l' = some .directory →
      entry? (d.set l e) l' = some .directory := fun l' hl' => by
    have hne : l' ≠ l := fun h => hl (h ▸ hl')
    rw [entry?_set hnil, if_neg hne, hl']
  have hparent : d.entry? l.dropLast = some .directory := by
    have habove := (h.anchored_start p).walk (walk_of_locate hlocate)
    obtain ⟨above, name, rfl⟩ := (List.eq_nil_or_concat' l).resolve_left hnil
    rw [List.dropLast_concat]
    exact habove above name List.prefix_rfl
  refine ⟨fun entry hentry => ?_, nodup_put h.distinct, fun entry hentry => ?_,
    hdirectory _ h.workingDirectory⟩
  · rcases mem_put hentry with rfl | hentry
    · exact eq_place_of_locate hlocate ▸ h.isName_place p
    · exact h.names entry hentry
  · rcases mem_put hentry with rfl | hentry
    · exact hdirectory _ hparent
    · exact hdirectory _ (h.parents entry hentry)

end MystNotebook.Disk
