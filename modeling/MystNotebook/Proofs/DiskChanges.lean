import MystNotebook.Proofs.DiskPlaces

/-! What a disk keeps while it is written to: directories stay, and only the file at the place of a
written path changes. -/
namespace MystNotebook.Disk

/-! Changes. -/

/-- What stays while files are written at some places and directories are made at others: that the
disk is well formed, where relative paths begin, all directories, the files that are not written,
without new ones, and everything elsewhere. -/
structure Keeps (written made : Location → Prop) (d d' : Disk) : Prop where
  wellFormed : d.WellFormed → d'.WellFormed
  workingDirectory : d'.workingDirectory = d.workingDirectory
  directory : ∀ l, d.entry? l = some .directory → d'.entry? l = some .directory
  file : ∀ l, ¬ written l → ∀ bytes,
    d'.entry? l = some (.file bytes) ↔ d.entry? l = some (.file bytes)
  elsewhere : ∀ l, ¬ written l → ¬ made l → d'.entry? l = d.entry? l

variable {written made : Location → Prop}

theorem Keeps.refl (d : Disk) : Keeps written made d d :=
  ⟨id, rfl, fun _ h => h, fun _ _ _ => Iff.rfl, fun _ _ _ => rfl⟩

theorem Keeps.trans {d d' d'' : Disk} (h : Keeps written made d d')
    (h' : Keeps written made d' d'') : Keeps written made d d'' where
  wellFormed hd := h'.wellFormed (h.wellFormed hd)
  workingDirectory := h'.workingDirectory.trans h.workingDirectory
  directory l hl := h'.directory l (h.directory l hl)
  file l hl bytes := (h'.file l hl bytes).trans (h.file l hl bytes)
  elsewhere l hl hl' := (h'.elsewhere l hl hl').trans (h.elsewhere l hl hl')

theorem Keeps.mono {written' made' : Location → Prop} {d d' : Disk} (h : Keeps written made d d')
    (hw : ∀ l, written l → written' l) (hm : ∀ l, made l → made' l) : Keeps written' made' d d' :=
  ⟨h.wellFormed, h.workingDirectory, h.directory, fun l hl => h.file l fun hl' => hl (hw l hl'),
    fun l hl hl' => h.elsewhere l (fun h => hl (hw l h)) fun h => hl' (hm l h)⟩

theorem Keeps.start_eq {d d' : Disk} (h : Keeps written made d d') (p : Path) :
    d'.start p = d.start p := by
  rw [start, start, h.workingDirectory]

theorem Keeps.place_eq {d d' : Disk} (h : Keeps written made d d') (p : Path) :
    d'.place p = d.place p := by
  rw [place, place, h.start_eq]

theorem Keeps.walk {d d' : Disk} (h : Keeps written made d d') {location l : Location}
    {parts : List (List Char)} (hw : d.walk location parts = .ok l) :
    d'.walk location parts = .ok l := by
  induction parts generalizing location with
  | nil => exact hw
  | cons part parts ih =>
    rw [walk_cons] at hw ⊢
    cases henter : d.enter location part with
    | error e => simp [henter, Except.bind] at hw
    | ok next =>
      have hsame : d'.enter location part = d.enter location part := by
        have hdir := (enter_eq_ok henter).1
        rw [enter, enter, hdir, h.directory _ hdir]
      rw [henter] at hw
      rw [hsame, henter]
      exact ih hw

theorem Keeps.locate {d d' : Disk} (h : Keeps written made d d') {p : Path} {l : Location}
    (hp : d.locate p = .ok l) : d'.locate p = .ok l := by
  have hwalk := h.walk (walk_of_locate hp)
  simp only [Disk.locate] at hp ⊢
  split at hp
  · cases hp
  · next hempty =>
    rw [if_neg hempty]
    split at hp
    · cases hp
    · next hnul =>
      rw [if_neg hnul]
      split at hp
      · cases hp
      · next hlong =>
        rw [if_neg hlong, h.workingDirectory]
        exact hwalk

/-! Reading. -/

theorem find_eq_ok_iff {d : Disk} {p : Path} {e : Entry} :
    d.find p = .ok e ↔ d.locate p = .ok (d.place p) ∧ d.entry? (d.place p) = some e := by
  cases hlocate : d.locate p with
  | error e => simp [find, hlocate, bind, Except.bind]
  | ok l =>
    obtain rfl := eq_place_of_locate hlocate
    cases hentry : d.entry? (d.place p) <;> simp [find, hlocate, hentry, bind, Except.bind]

theorem readBytes_eq_ok_iff {d : Disk} {p : Path} {bytes : ByteArray} :
    d.readBytes p = .ok bytes ↔
      d.locate p = .ok (d.place p) ∧ d.entry? (d.place p) = some (.file bytes) := by
  rw [← find_eq_ok_iff, readBytes]
  cases hfind : d.find p with
  | error e => simp [bind, Except.bind]
  | ok e => cases e <;> simp [bind, Except.bind]

theorem locate_eq {d : Disk} {p : Path} (hempty : p.text ≠ "")
    (hnul : p.text.contains '\x00' = false) (hlong : p.text.utf8ByteSize < 4096) :
    d.locate p = d.walk (d.start p) p.parts := by
  rw [locate, if_neg (by simpa using hempty), if_neg (by simp [hnul]), if_neg (by omega)]
  rfl

theorem find_of_walk {d : Disk} {p : Path} {l : Location} {e : Entry} (hempty : p.text ≠ "")
    (hnul : p.text.contains '\x00' = false) (hlong : p.text.utf8ByteSize < 4096)
    (hwalk : d.walk (d.start p) p.parts = .ok l) (hentry : d.entry? l = some e) :
    d.find p = .ok e := by
  rw [find, locate_eq hempty hnul hlong, hwalk]
  simp only [bind, Except.bind, hentry]

/-- A file that can be read can still be read if nothing was written to its place. -/
theorem Keeps.readBytes_eq_ok {d d' : Disk} (h : Keeps written made d d') {p : Path}
    (hp : ¬ written (d.place p)) {bytes : ByteArray} (hread : d.readBytes p = .ok bytes) :
    d'.readBytes p = .ok bytes := by
  obtain ⟨hlocate, hentry⟩ := readBytes_eq_ok_iff.mp hread
  rw [readBytes_eq_ok_iff, h.place_eq]
  exact ⟨h.locate hlocate, (h.file _ hp bytes).mpr hentry⟩

theorem Keeps.entry?_eq {d d' : Disk} (h : Keeps written made d d') {l : Location}
    (hl : written l ∨ made l → d.entry? l = some .directory) : d'.entry? l = d.entry? l := by
  by_cases hchanged : written l ∨ made l
  · rw [hl hchanged, h.directory l (hl hchanged)]
  · rw [not_or] at hchanged
    exact h.elsewhere l hchanged.1 hchanged.2

/-- Where nothing changes but what is a directory already, walks go as before. -/
theorem Keeps.walk_eq {d d' : Disk} (h : Keeps written made d d') {location : Location}
    {parts : List (List Char)} (hstops : ∀ l ∈ stopsFrom location parts,
      written l ∨ made l → d.entry? l = some .directory) :
    d'.walk location parts = d.walk location parts ∧
      d'.entry? (follow location parts) = d.entry? (follow location parts) := by
  induction parts generalizing location with
  | nil => exact ⟨rfl, h.entry?_eq (hstops _ (List.mem_singleton_self _))⟩
  | cons part parts ih =>
    obtain ⟨hwalk, hentry⟩ := ih fun l hl => hstops l (List.mem_cons_of_mem _ hl)
    have hhere := h.entry?_eq (hstops _ List.mem_cons_self)
    refine ⟨?_, hentry⟩
    rw [walk_cons, walk_cons, enter, enter, hhere]
    cases d.entry? location with
    | none => rfl
    | some e =>
      cases e with
      | file bytes => rfl
      | directory =>
        dsimp only
        split
        · rfl
        · exact hwalk

/-- What a path leads to is read as before if nothing on the way changes. -/
theorem Keeps.readBytes_eq {d d' : Disk} (h : Keeps written made d d') {p : Path}
    (hstops : ∀ l ∈ d.stops p, written l ∨ made l → d.entry? l = some .directory) :
    d'.readBytes p = d.readBytes p := by
  obtain ⟨hwalk, hentry⟩ := h.walk_eq hstops
  have hlocate : d'.locate p = d.locate p := by
    simp only [Disk.locate, h.workingDirectory]
    rw [start] at hwalk
    rw [hwalk]
  have hfind : d'.find p = d.find p := by
    rw [find, find, hlocate]
    cases hplace : d.locate p with
    | error e => rfl
    | ok l =>
      obtain rfl := eq_place_of_locate hplace
      simp only [bind, Except.bind]
      rw [show d'.entry? (d.place p) = d.entry? (d.place p) from hentry]
  rw [readBytes, readBytes, hfind]

/-! Writing. -/

theorem keeps_set {d : Disk} {p : Path} {l : Location} (hlocate : d.locate p = .ok l)
    (hl : d.entry? l ≠ some .directory) (bytes : ByteArray) :
    Keeps (· = l) made d (d.set l (.file bytes)) := by
  have hnil : l ≠ [] := fun h => hl (h ▸ d.entry?_nil)
  have hother : ∀ l', l' ≠ l → entry? (d.set l (.file bytes)) l' = d.entry? l' := fun l' hl' => by
    rw [entry?_set hnil, if_neg hl']
  refine ⟨fun hd => hd.set hlocate hl _, rfl, fun l' hl' => ?_, fun l' hl' bytes' => ?_,
    fun l' hl' _ => hother l' hl'⟩
  · have hne : l' ≠ l := fun h => hl (h ▸ hl')
    rw [hother l' hne, hl']
  · rw [hother l' hl']

theorem keeps_set_directory {d : Disk} {p : Path} {l : Location} (hlocate : d.locate p = .ok l)
    (hl : d.entry? l = none) (hmade : made l) : Keeps written made d (d.set l .directory) := by
  have hnil : l ≠ [] := fun h => by simp [h] at hl
  refine ⟨fun hd => hd.set hlocate (by simp [hl]) _, rfl, fun l' hl' => ?_,
    fun l' _ bytes => ?_, fun l' _ hl' => ?_⟩
  · rw [entry?_set hnil, hl', ite_self]
  · rw [entry?_set hnil]
    split
    · next h => simp [h, hl]
    · rfl
  · have hne : l' ≠ l := fun h => hl' (h ▸ hmade)
    rw [entry?_set hnil, if_neg hne]

theorem keeps_log (d : Disk) (log : List (LogLevel × String)) :
    Keeps written made d { d with log := log } :=
  ⟨fun hd => ⟨hd.names, hd.distinct, hd.parents, hd.workingDirectory⟩, rfl, fun _ h => h,
    fun _ _ _ => Iff.rfl, fun _ _ _ => rfl⟩

theorem writeFile_eq_ok {d d' : Disk} {p : Path} {s : String} (h : d.writeFile p s = .ok d') :
    d.locate p = .ok (d.place p) ∧ d.entry? (d.place p) ≠ some .directory ∧
      d' = d.set (d.place p) (.file s.toUTF8) := by
  rw [writeFile] at h
  cases hend : endsWithSlash p with
  | true =>
    rw [if_pos hend] at h
    cases hlocate : d.locate (withoutSlashes p) <;> simp [hlocate, bind, Except.bind] at h
  | false =>
    rw [hend, if_neg Bool.false_ne_true] at h
    cases hlocate : d.locate p with
    | error e => simp [hlocate, bind, Except.bind] at h
    | ok l =>
      obtain rfl := eq_place_of_locate hlocate
      simp only [hlocate, bind, Except.bind] at h
      split at h
      · cases h
      · next hentry => exact ⟨rfl, hentry, (Except.ok.inj h).symm⟩

/-- A directory is made at the place of its path, where there was nothing. -/
theorem makeDirectory_eq_ok {d d' : Disk} {p : Path} (h : d.makeDirectory p = .ok d') :
    (∃ q, d.locate q = .ok (d.place p)) ∧ d.entry? (d.place p) = none ∧
      d' = d.set (d.place p) .directory := by
  rw [makeDirectory] at h
  cases hlocate : d.locate (if endsWithSlash p then withoutSlashes p else p) with
  | error e => simp [hlocate, bind, Except.bind] at h
  | ok l =>
    have hplace : l = d.place p := by
      split at hlocate
      · rw [eq_place_of_locate hlocate, place_withoutSlashes (text_ne_of_locate hlocate)]
      · exact eq_place_of_locate hlocate
    subst hplace
    simp only [hlocate, bind, Except.bind] at h
    split at h
    · cases h
    · next hentry => exact ⟨⟨_, hlocate⟩, hentry, (Except.ok.inj h).symm⟩

theorem keeps_writeFile {d d' : Disk} {p : Path} {s : String} (h : d.writeFile p s = .ok d') :
    Keeps (· = d.place p) made d d' := by
  obtain ⟨hlocate, hentry, rfl⟩ := writeFile_eq_ok h
  exact keeps_set hlocate hentry _

/-- What was written is read back. -/
theorem readBytes_writeFile {d d' : Disk} {p : Path} {s : String} (h : d.writeFile p s = .ok d') :
    d'.readBytes p = .ok s.toUTF8 := by
  have hkeeps : Keeps (· = d.place p) (fun _ => False) d d' := keeps_writeFile h
  obtain ⟨hlocate, hentry, rfl⟩ := writeFile_eq_ok h
  have hnil : d.place p ≠ [] := fun h => hentry (h ▸ d.entry?_nil)
  rw [readBytes_eq_ok_iff, hkeeps.place_eq]
  exact ⟨hkeeps.locate hlocate, by rw [entry?_set hnil, if_pos rfl]⟩

theorem Keeps.anchored {d d' : Disk} (h : Keeps written made d d') {location : Location}
    (hl : d.Anchored location) : d'.Anchored location :=
  fun above name hpre => h.directory above (hl above name hpre)

end MystNotebook.Disk
