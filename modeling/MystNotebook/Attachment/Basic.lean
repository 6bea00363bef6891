import MystNotebook.Json.Value

/-! Attachments of a notebook cell: files by name, in the order in which the names were first given.
-/
namespace MystNotebook

/-- The contents of one file by media type, as base64 text. -/
abbrev MimeBundle := List (String × String)

/-- An image as it goes into a notebook. -/
structure ImageData where
  mime : String
  /-- The contents as base64 text. -/
  data : String
  deriving DecidableEq, Repr

/-- Images by the url that refers to them. -/
abbrev ImageMap := List (String × ImageData)

structure Attachments where
  entries : List (String × MimeBundle)
  deriving DecidableEq, Repr

namespace Attachments

def empty : Attachments := ⟨[]⟩

def names (a : Attachments) : List String := a.entries.map Prod.fst

def size (a : Attachments) : Nat := a.entries.length

def isEmpty (a : Attachments) : Bool := a.entries.isEmpty

def get? (a : Attachments) (name : String) : Option MimeBundle := a.entries.lookup name

def contains (a : Attachments) (name : String) : Bool := (a.get? name).isSome

def put (name : String) (bundle : MimeBundle) :
    List (String × MimeBundle) → List (String × MimeBundle)
  | [] => [(name, bundle)]
  | (n, b) :: rest => if n = name then (n, bundle) :: rest else (n, b) :: put name bundle rest

/-- A name that is already there keeps its place. -/
def insert (a : Attachments) (name : String) (bundle : MimeBundle) : Attachments :=
  ⟨put name bundle a.entries⟩

theorem get?_insert_self (a : Attachments) (name : String) (bundle : MimeBundle) :
    (a.insert name bundle).get? name = some bundle := by
  obtain ⟨l⟩ := a
  simp only [insert, get?]
  induction l with
  | nil => simp [put]
  | cons e l ih =>
    obtain ⟨k, b⟩ := e
    simp only [put]
    split
    · rename_i h
      simp [h]
    · rename_i h
      simp [List.lookup_cons, beq_false_of_ne (Ne.symm h), ih]

theorem get?_insert_of_ne {n name : String} (h : n ≠ name) (a : Attachments)
    (bundle : MimeBundle) : (a.insert name bundle).get? n = a.get? n := by
  obtain ⟨l⟩ := a
  simp only [insert, get?]
  induction l with
  | nil => simp [put, List.lookup_cons, beq_false_of_ne h]
  | cons e l ih =>
    obtain ⟨k, b⟩ := e
    simp only [put]
    split
    · rename_i hk
      simp [List.lookup_cons, hk, beq_false_of_ne h]
    · simp [List.lookup_cons, ih]

def toJson (a : Attachments) : Json.Value :=
  .object (a.entries.map fun (name, bundle) =>
    (name, .object (bundle.map fun (mime, data) => (mime, .string data))))

end Attachments
end MystNotebook
