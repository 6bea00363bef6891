import MystNotebook.Text.Line

/-! Case folding, as far as it leads to the letters a to z: texts that differ in case alone have the
same fold. -/
namespace MystNotebook.Text

/-- The long s, the kelvin sign, the sharp s and the ligatures. -/
def foldedLetters : List (Nat × List Char) := [
  (0xDF, ['s', 's']), (0x17F, ['s']), (0x1E9E, ['s', 's']), (0x212A, ['k']), (0xFB00, ['f', 'f']),
  (0xFB01, ['f', 'i']), (0xFB02, ['f', 'l']), (0xFB03, ['f', 'f', 'i']), (0xFB04, ['f', 'f', 'l']),
  (0xFB05, ['s', 't']), (0xFB06, ['s', 't'])]

def foldChar (c : Char) : List Char := (foldedLetters.lookup c.toNat).getD [c.toLower]

def foldCase (s : List Char) : List Char := s.flatMap foldChar

end MystNotebook.Text
