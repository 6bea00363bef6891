import Mathlib.Algebra.Ring.Nat
import MystNotebook.Proofs.FreeNames

/-! The search for a free name as it runs: one number after the other, until a name is free. It
ends, with the smallest number whose name is free. -/
namespace MystNotebook.Attachment

/-- A name as stem and extension, cut before the last dot. A dot at the start makes no extension. -/
inductive IsCut : List Char → List Char → List Char → Prop
  | dot {stem extension : List Char} (hstem : stem ≠ []) (hextension : '.' ∉ extension) :
    IsCut (stem ++ '.' :: extension) stem ('.' :: extension)
  | whole {name : List Char} (hname : '.' ∉ name.tail) : IsCut name name []

theorem isCut_splitExtension (name : List Char) :
    IsCut name (splitExtension name).1 (splitExtension name).2 := by
  by_cases h : '.' ∈ name
  · obtain ⟨stem, extension, hextension, rfl⟩ := eq_of_mem_dot h
    rw [splitExtension_dot hextension]
    cases stem with
    | nil => exact .whole hextension
    | cons c stem => exact .dot (List.cons_ne_nil c stem) hextension
  · rw [splitExtension_of_not_mem h]
    exact .whole fun hmem => h (List.mem_of_mem_tail hmem)

def numbered (stem extension : List Char) (number : Int) : String :=
  String.ofList (stem ++ '_' :: ((toString number).toList ++ extension))

theorem numberedName_eq (name : String) (n : Nat) : numberedName name n =
    numbered (splitExtension name.toList).1 (splitExtension name.toList).2 n := by
  rw [← String.toList_inj, toList_numberedName, numbered, String.toList_ofList]
  rfl

/-- The search from a number on: how many names it tries and which it ends with. Nothing but a free
name ends it. The number is one of 32 bits, so that behind the largest comes the smallest. -/
inductive Search (stem extension : List Char) (taken : Attachments) :
    Int32 → Nat → String → Prop
  | ends {n : Int32} (h : taken.contains (numbered stem extension n.toInt) = false) :
    Search stem extension taken n 1 (numbered stem extension n.toInt)
  | goesOn {n : Int32} {tries : Nat} {result : String}
    (h : taken.contains (numbered stem extension n.toInt) = true)
    (hrest : Search stem extension taken (n + 1) tries result) :
    Search stem extension taken n (tries + 1) result

variable {stem extension : List Char} {taken : Attachments}

theorem Search.unique {n : Int32} {tries tries' : Nat} {result result' : String}
    (h : Search stem extension taken n tries result)
    (h' : Search stem extension taken n tries' result') : tries = tries' ∧ result = result' := by
  induction h generalizing tries' result' with
  | ends hfree =>
    cases h' with
    | ends _ => exact ⟨rfl, rfl⟩
    | goesOn htaken _ => simp [hfree] at htaken
  | goesOn htaken _ ih =>
    cases h' with
    | ends hfree => simp [htaken] at hfree
    | goesOn _ hrest =>
      obtain ⟨htries, hresult⟩ := ih hrest
      exact ⟨congrArg (· + 1) htries, hresult⟩

/-- The induction is on how many names are tried in vain. -/
theorem search_of_taken {start tries : Nat} (hbound : start + tries < 2 ^ 31)
    (hfree : taken.contains (numbered stem extension (start + tries : Nat)) = false)
    (htaken : ∀ m, start ≤ m → m < start + tries →
      taken.contains (numbered stem extension m) = true) :
    Search stem extension taken (.ofNat start) (tries + 1)
      (numbered stem extension (start + tries : Nat)) := by
  induction tries generalizing start with
  | zero =>
    have hstart : (Int32.ofNat start).toInt = (start + 0 : Nat) := Int32.toInt_ofNat_of_lt hbound
    rw [← hstart] at hfree ⊢
    exact .ends hfree
  | succ tries ih =>
    have hstart : (Int32.ofNat start).toInt = start := Int32.toInt_ofNat_of_lt (by omega)
    have hnext : start + (tries + 1) = start + 1 + tries := by omega
    rw [hnext] at hbound hfree htaken ⊢
    refine .goesOn ?_ ?_
    · rw [hstart]
      exact htaken start le_rfl (by omega)
    · have hrest := ih hbound hfree fun m hm hlt => htaken m (by omega) hlt
      rwa [Int32.ofNat_add] at hrest

/-- A free name is kept. For any other the smallest number is taken whose name is free, and it is no
larger than the number of attachments: a search that goes on for so long finds it and needs nothing
to fall back on, and with fewer than `2 ^ 31` attachments the number does not leave its 32 bits. -/
theorem freeName_smallest (name : String) (taken : Attachments) :
    taken.contains (freeName name taken) = false ∧
      (taken.contains name = false → freeName name taken = name) ∧
      (taken.contains name = true → ∃ stem extension n, IsCut name.toList stem extension ∧
        1 ≤ n ∧ n ≤ taken.size ∧
        freeName name taken = numbered stem extension (n : Nat) ∧
        (∀ m : Nat, 1 ≤ m → m < n → taken.contains (numbered stem extension m) = true) ∧
        (∀ limit, taken.size ≤ limit →
          (numberedNames name limit).find? (fun candidate => !taken.contains candidate) =
            some (freeName name taken)) ∧
        (taken.size < 2 ^ 31 → ∀ tries result, Search stem extension taken 1 tries result ↔
          tries = n ∧ result = freeName name taken)) := by
  refine ⟨(freeName_cases name taken).1, freeName_of_free, fun h => ?_⟩
  obtain ⟨n, hsize, hn⟩ := exists_isFirstFree h
  have hname := freeName_of_isFirstFree h hn hsize
  have hcut := isCut_splitExtension name.toList
  have hnumbered := numberedName_eq name
  generalize (splitExtension name.toList).1 = stem at hcut hnumbered
  generalize (splitExtension name.toList).2 = extension at hcut hnumbered
  have htaken : ∀ m : Nat, 1 ≤ m → m < n →
      taken.contains (numbered stem extension m) = true := fun m hm hlt => by
    rw [← hnumbered]
    exact hn.2.2 m hm hlt
  refine ⟨stem, extension, n, hcut, hn.1, hsize, ?_, htaken, fun limit hlimit => ?_,
    fun hbits tries result => ?_⟩
  · rw [hname, hnumbered]
  · rw [hname, hn.find? (hsize.trans hlimit)]
  · obtain ⟨k, rfl⟩ := Nat.exists_eq_add_of_le hn.1
    have hfree : taken.contains (numbered stem extension (1 + k : Nat)) = false := by
      rw [← hnumbered]
      exact hn.2.1
    have hsearch := search_of_taken (by omega) hfree htaken
    rw [← hnumbered, ← hname, Nat.add_comm] at hsearch
    constructor
    · intro hother
      exact hother.unique hsearch
    · rintro ⟨rfl, rfl⟩
      exact hsearch

example : freeName ".." ⟨[("..", []), ("._1.", [])]⟩ = "._2." := by decide

end MystNotebook.Attachment
