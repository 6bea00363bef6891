import MystNotebook.Proofs.PageSteps

/-! The page files of a directory. They lie below it by names, each of them is collected once, and
looking for them changes nothing. -/
namespace MystNotebook

namespace Disk

variable {d : Disk}

/-- The name of an entry in a directory. -/
def nameIn (location l : Location) : Option String :=
  l.getLast?.bind fun name => if l.dropLast = location then some name else none

theorem nameIn_eq_some_iff {location l : Location} {name : String} :
    nameIn location l = some name ↔ l = location ++ [name] := by
  rcases List.eq_nil_or_concat' l with rfl | ⟨above, last, rfl⟩
  · simp [nameIn]
  · simp [nameIn, and_comm]

theorem namesIn_eq (d : Disk) (location : Location) :
    d.namesIn location = (d.entries.map Prod.fst).filterMap (nameIn location) := by
  rw [namesIn, List.filterMap_map]
  refine List.filterMap_congr fun entry _ => ?_
  obtain ⟨l, e⟩ := entry
  simp only [Function.comp_apply, nameIn]
  cases l.getLast? <;> rfl

theorem WellFormed.nodup_namesIn (h : d.WellFormed) (location : Location) :
    (d.namesIn location).Nodup := by
  rw [namesIn_eq]
  refine h.distinct.filterMap fun l l' name hl hl' => ?_
  rw [nameIn_eq_some_iff.mp hl, nameIn_eq_some_iff.mp hl']

theorem WellFormed.isName_of_mem_namesIn (h : d.WellFormed) {location : Location} {name : String}
    (hname : name ∈ d.namesIn location) : Path.IsName name.toList := by
  rw [namesIn_eq] at hname
  obtain ⟨l, hl, hin⟩ := List.mem_filterMap.mp hname
  obtain ⟨entry, hentry, rfl⟩ := List.mem_map.mp hl
  exact h.names entry hentry name (by simp [nameIn_eq_some_iff.mp hin])

theorem list_eq_ok {p : Path} {names : List String} (h : d.list p = .ok names) :
    p.text ≠ "" ∧ names = d.namesIn (d.place p) := by
  rw [list] at h
  cases hlocate : d.locate p with
  | error e => simp [hlocate, bind, Except.bind] at h
  | ok l =>
    refine ⟨text_ne_of_locate hlocate, ?_⟩
    simp only [hlocate, bind, Except.bind] at h
    split at h
    · rw [← eq_place_of_locate hlocate]
      exact (Except.ok.inj h).symm
    · cases h
    · cases h

end Disk

namespace Project
open Disk

variable {d d' : Disk} {recursive : Bool} {depth : Nat} {files : List Path}

/-! One step of the search. -/

theorem run_pageFiles {directory : Path}
    (h : (pageFiles recursive (depth + 1) directory : StateM Disk _).run d = (.ok files, d')) :
    ∃ names, d.list directory = .ok names ∧
      (pageFilesAmong recursive depth (names.map fun name => directory.join ⟨name⟩) :
        StateM Disk _).run d = (.ok files, d') := by
  have hlist : (Storage.list directory : StateM Disk _).run d = (d.list directory, d) := rfl
  rw [pageFiles, run_bind, hlist] at h
  cases hnames : d.list directory with
  | error e =>
    rw [hnames] at h
    cases h
  | ok names =>
    rw [hnames] at h
    exact ⟨names, rfl, h⟩

theorem run_pageFilesAt {p : Path}
    (h : (pageFilesAt recursive depth p : StateM Disk _).run d = (.ok files, d')) :
    (files = [] ∧ d' = d) ∨
      (files = [p] ∧ d' = d ∧ isPageFile p = true ∧ ∃ bytes, d.readBytes p = .ok bytes) ∨
      (pageFiles recursive depth p : StateM Disk _).run d = (.ok files, d') := by
  have hkind : (Storage.kindOf p : StateM Disk _).run d =
      ((d.find p).toOption.map Entry.kind, d) := rfl
  rw [pageFilesAt, run_bind, hkind] at h
  cases hfind : d.find p with
  | error e =>
    rw [hfind] at h
    cases h
    exact .inl ⟨rfl, rfl⟩
  | ok entry =>
    rw [hfind] at h
    cases entry with
    | file bytes =>
      cases hpage : isPageFile p with
      | true =>
        simp only [Except.toOption, Option.map_some, Entry.kind, hpage, if_true] at h
        cases h
        exact .inr (.inl ⟨rfl, rfl, rfl, bytes, readBytes_eq_ok_iff.mpr (find_eq_ok_iff.mp hfind)⟩)
      | false =>
        simp only [Except.toOption, Option.map_some, Entry.kind, hpage] at h
        cases h
        exact .inl ⟨rfl, rfl⟩
    | directory =>
      cases recursive with
      | true => exact .inr (.inr h)
      | false =>
        cases h
        exact .inl ⟨rfl, rfl⟩

theorem run_pageFilesAmong {p : Path} {ps : List Path}
    (h : (pageFilesAmong recursive depth (p :: ps) : StateM Disk _).run d = (.ok files, d')) :
    ∃ here d₁ rest, (pageFilesAt recursive depth p : StateM Disk _).run d = (.ok here, d₁) ∧
      (pageFilesAmong recursive depth ps : StateM Disk _).run d₁ = (.ok rest, d') ∧
      files = here ++ rest := by
  rw [pageFilesAmong, run_bind] at h
  generalize hat : (pageFilesAt recursive depth p : StateM Disk _).run d = here at h
  obtain ⟨_ | here, d₁⟩ := here
  · cases h
  · dsimp only at h
    rw [run_bind] at h
    generalize hrest : (pageFilesAmong recursive depth ps : StateM Disk _).run d₁ = rest at h
    obtain ⟨_ | rest, d₂⟩ := rest
    · cases h
    · cases h
      exact ⟨here, d₁, rest, rfl, hrest, rfl⟩

/-- In a directory of files the pages are found by their extensions. -/
theorem run_pageFiles_of_files {directory : Path} {names : List String}
    (hlist : d.list directory = .ok names)
    (hfiles : ∀ name ∈ names, ∃ bytes, d.find (directory.join ⟨name⟩) = .ok (.file bytes)) :
    (pageFiles recursive (depth + 1) directory : StateM Disk _).run d =
      (.ok ((names.map fun name => directory.join ⟨name⟩).filter isPageFile), d) := by
  have hrun : (Storage.list directory : StateM Disk _).run d = (.ok names, d) := by
    rw [← hlist]
    rfl
  rw [pageFiles, run_bind, hrun]
  dsimp only
  clear hlist hrun
  induction names with
  | nil =>
    rw [List.map_nil, pageFilesAmong]
    rfl
  | cons name names ih =>
    obtain ⟨⟨bytes, hfind⟩, hfiles⟩ := List.forall_mem_cons.mp hfiles
    have hkind : (Storage.kindOf (directory.join ⟨name⟩) : StateM Disk _).run d =
        (some .file, d) := by
      change ((d.find (directory.join ⟨name⟩)).toOption.map Entry.kind, d) = _
      rw [hfind]
      rfl
    rw [List.map_cons, pageFilesAmong, run_bind, pageFilesAt, run_bind, hkind]
    dsimp only
    change (pageFilesAmong recursive depth _ >>= _ : StateM Disk _).run d = _
    rw [run_bind, ih hfiles, List.filter_cons]
    cases isPageFile (directory.join ⟨name⟩) <;> rfl

/-! The pages below a directory. -/

/-- A page file that is there, by the directories that lead to it and its name. -/
structure PageBelow (d : Disk) (directory : Path) (directories : List String) (name : String)
    (file : Path) : Prop where
  file_eq : file = directory.descend (directories ++ [name])
  isName_directories : ∀ name ∈ directories, Path.IsName name.toList
  isName : Path.IsName name.toList
  isPage : isPageFile file = true
  exists_readBytes : ∃ bytes, d.readBytes file = .ok bytes

theorem PageBelow.cons {directory file : Path} {first name : String} {directories : List String}
    (hfirst : Path.IsName first.toList)
    (h : PageBelow d (directory.join ⟨first⟩) directories name file) :
    PageBelow d directory (first :: directories) name file :=
  ⟨h.file_eq, List.forall_mem_cons.mpr ⟨hfirst, h.isName_directories⟩, h.isName, h.isPage,
    h.exists_readBytes⟩

theorem PageBelow.isNames {directory file : Path} {directories : List String} {name : String}
    (h : PageBelow d directory directories name file) :
    ∀ part ∈ directories ++ [name], Path.IsName part.toList :=
  List.forall_mem_append.mpr ⟨h.isName_directories, List.forall_mem_singleton.mpr h.isName⟩

/-- A search changes nothing and finds page files, each of them once. -/
structure Collects (d : Disk) (directory : Path) (files : List Path) (d' : Disk) : Prop where
  same : d' = d
  nodup : files.Nodup
  below : ∀ file ∈ files, ∃ directories name, PageBelow d directory directories name file

/-- The pages at an entry are below the directory by its name. -/
theorem collects_pageFilesAt {directory : Path} {entry : String} (hentry : Path.IsName entry.toList)
    (ih : ∀ {p files d'}, (pageFiles recursive depth p : StateM Disk _).run d = (.ok files, d') →
      Collects d p files d')
    (h : (pageFilesAt recursive depth (directory.join ⟨entry⟩) : StateM Disk _).run d =
      (.ok files, d')) :
    d' = d ∧ files.Nodup ∧ ∀ file ∈ files, ∃ directories name,
      PageBelow d directory directories name file ∧
        (directories ++ [name]).head? = some entry := by
  rcases run_pageFilesAt h with ⟨rfl, rfl⟩ | ⟨rfl, rfl, hpage, hread⟩ | hbelow
  · exact ⟨rfl, List.nodup_nil, by simp⟩
  · refine ⟨rfl, List.nodup_singleton _, ?_⟩
    rw [List.forall_mem_singleton]
    exact ⟨[], entry, ⟨rfl, by simp, hentry, hpage, hread⟩, rfl⟩
  · obtain ⟨hsame, hnodup, hfiles⟩ := ih hbelow
    refine ⟨hsame, hnodup, fun file hfile => ?_⟩
    obtain ⟨directories, name, hpage⟩ := hfiles file hfile
    exact ⟨entry :: directories, name, hpage.cons hentry, rfl⟩

theorem collects_pageFilesAmong {directory : Path}
    (ih : ∀ {p files d'}, (pageFiles recursive depth p : StateM Disk _).run d = (.ok files, d') →
      Collects d p files d')
    {entries : List String} (hentries : ∀ entry ∈ entries, Path.IsName entry.toList)
    (hnodup : entries.Nodup)
    (h : (pageFilesAmong recursive depth (entries.map fun entry => directory.join ⟨entry⟩) :
      StateM Disk _).run d = (.ok files, d')) :
    d' = d ∧ files.Nodup ∧ ∀ file ∈ files, ∃ directories name,
      PageBelow d directory directories name file ∧
        ∃ entry ∈ entries, (directories ++ [name]).head? = some entry := by
  induction entries generalizing files with
  | nil =>
    rw [List.map_nil, pageFilesAmong] at h
    cases h
    exact ⟨rfl, List.nodup_nil, by simp⟩
  | cons entry entries ihEntries =>
    obtain ⟨hentry, hentries⟩ := List.forall_mem_cons.mp hentries
    obtain ⟨hnew, hnodup⟩ := List.nodup_cons.mp hnodup
    obtain ⟨here, d₁, rest, hat, hrest, rfl⟩ := run_pageFilesAmong h
    obtain ⟨rfl, hnodupHere, hhere⟩ := collects_pageFilesAt hentry ih hat
    obtain ⟨hsame, hnodupRest, hrest⟩ := ihEntries hentries hnodup hrest
    refine ⟨hsame, ?_, ?_⟩
    · refine List.nodup_append.mpr ⟨hnodupHere, hnodupRest, ?_⟩
      -- a file that both had found would start with two different names
      rintro file hfile _ hfile' rfl
      obtain ⟨directories, name, hpage, hhead⟩ := hhere file hfile
      obtain ⟨directories', name', hpage', other, hother, hhead'⟩ := hrest file hfile'
      have hsame := Path.descend_injective hpage.isNames hpage'.isNames
        (hpage.file_eq.symm.trans hpage'.file_eq)
      rw [hsame, hhead'] at hhead
      exact hnew (Option.some.inj hhead ▸ hother)
    · intro file hfile
      rcases List.mem_append.mp hfile with hfile | hfile
      · obtain ⟨directories, name, hpage, hhead⟩ := hhere file hfile
        exact ⟨directories, name, hpage, entry, List.mem_cons_self, hhead⟩
      · obtain ⟨directories, name, hpage, other, hother, hhead⟩ := hrest file hfile
        exact ⟨directories, name, hpage, other, List.mem_cons_of_mem _ hother, hhead⟩

/-- The search finds page files below the directory, each of them once. -/
theorem collects_pageFiles (hd : d.WellFormed) {directory : Path}
    (h : (pageFiles recursive depth directory : StateM Disk _).run d = (.ok files, d')) :
    Collects d directory files d' := by
  induction depth generalizing directory files d' with
  | zero =>
    rw [pageFiles] at h
    cases h
    exact ⟨rfl, List.nodup_nil, by simp⟩
  | succ depth ih =>
    obtain ⟨names, hlist, hamong⟩ := run_pageFiles h
    obtain ⟨-, rfl⟩ := list_eq_ok hlist
    obtain ⟨hsame, hnodup, hbelow⟩ := collects_pageFilesAmong ih
      (fun name => hd.isName_of_mem_namesIn) (hd.nodup_namesIn _) hamong
    refine ⟨hsame, hnodup, fun file hfile => ?_⟩
    obtain ⟨directories, name, hpage, -⟩ := hbelow file hfile
    exact ⟨directories, name, hpage⟩

end Project
end MystNotebook
