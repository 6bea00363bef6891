import MystNotebook.Text.Blank

/-! Lines of a text, and the small rewritings that work character by character. -/
namespace MystNotebook.Text

/-- The pieces between newlines; there is always one more than there are newlines. -/
def pieces : List Char → List (List Char)
  | [] => [[]]
  | c :: cs =>
    if c = '\n' then [] :: pieces cs
    else match pieces cs with
      | [] => [[c]]
      | line :: lines => (c :: line) :: lines

/-- The lines with the newlines that end them; only the last may lack its newline. -/
def fullLines : List Char → List (List Char)
  | [] => []
  | c :: cs =>
    if c = '\n' then ['\n'] :: fullLines cs
    else match fullLines cs with
      | [] => [[c]]
      | line :: lines => (c :: line) :: lines

theorem flatten_fullLines (s : List Char) : (fullLines s).flatten = s := by
  induction s with
  | nil => rfl
  | cons c cs ih =>
    simp only [fullLines]
    split
    · simp [*]
    · split <;> simp_all

/-- The line without its ending, which is a newline or a carriage return and a newline. -/
def withoutEnding (line : List Char) : List Char :=
  match line.reverse with
  | '\n' :: '\r' :: rest => rest.reverse
  | '\n' :: rest => rest.reverse
  | _ => line

def lines (s : List Char) : List (List Char) := (fullLines s).map withoutEnding

def trimNewlines (s : List Char) : List Char := dropEndWhile (· == '\n') s

/-- Every `c` becomes `image`, and all else stays. -/
def replace (c : Char) (image : List Char) (s : List Char) : List Char :=
  s.flatMap fun x => if x = c then image else [x]

/-- The length of the longest run of `c`, when a run of length `current` stands before `s`. -/
def longestRun (c : Char) (current : Nat) : List Char → Nat
  | [] => current
  | x :: s => if x = c then longestRun c (current + 1) s else max current (longestRun c 0 s)

def startsWith (start s : List Char) : Bool := start.isPrefixOf s

def endsWith (ending s : List Char) : Bool := ending.isSuffixOf s

def lowerAscii (s : List Char) : List Char := s.map Char.toLower

/-- Equality of texts, with the letters A to Z taken as a to z. -/
def sameLetters (a b : String) : Bool := lowerAscii a.toList == lowerAscii b.toList

end MystNotebook.Text
