import MystNotebook.Settings.TomlText

/-! Values of TOML that are one word: booleans, numbers, dates and times. -/
namespace MystNotebook.Toml

/-- Digits with single underscores between them. -/
def plainDigits (isDigit : Char → Bool) (s : List Char) : Option (List Char) :=
  let rec go : Bool → List Char → Option (List Char)
    | afterDigit, [] => if afterDigit then some [] else none
    | afterDigit, c :: cs =>
      if c = '_' then (if afterDigit then go false cs else none)
      else if isDigit c then (go true cs).map (c :: ·)
      else none
  go false s

def natOfBase (base : Nat) (digits : List Char) : Nat :=
  digits.foldl (fun n c => base * n + (hexDigit c).getD 0) 0

def isOctal (c : Char) : Bool := '0' ≤ c && c ≤ '7'

def isBinary (c : Char) : Bool := c == '0' || c == '1'

def decimal (s : List Char) : Option Nat := do
  let digits ← plainDigits Char.isDigit s
  match digits with
  | '0' :: _ :: _ => none
  | _ => some (natOfBase 10 digits)

def integer : List Char → Option Int
  | '0' :: 'x' :: s => do some (natOfBase 16 (← plainDigits (fun c => (hexDigit c).isSome) s))
  | '0' :: 'o' :: s => do some (natOfBase 8 (← plainDigits isOctal s))
  | '0' :: 'b' :: s => do some (natOfBase 2 (← plainDigits isBinary s))
  | '+' :: s => do some (← decimal s)
  | '-' :: s => do some (-(← decimal s : Int))
  | s => do some (← decimal s)

def withoutSign : List Char → List Char
  | '+' :: s => s
  | '-' :: s => s
  | s => s

/-- The digits after a point, if there is one. -/
def fractionDigits : List Char → Option (List Char)
  | [] => some []
  | _ :: s => plainDigits Char.isDigit s

/-- The power of ten after a letter, if there is one. -/
def exponent : List Char → Option Int
  | [] => some 0
  | _ :: '-' :: s => do some (-(natOfBase 10 (← plainDigits Char.isDigit s) : Int))
  | _ :: s => do some (natOfBase 10 (← plainDigits Char.isDigit (withoutSign s)))

/-- A number with a fraction or an exponent; infinity and `nan` are words. -/
def float (s : List Char) : Option (Option Magnitude) := do
  let s := withoutSign s
  if s = "inf".toList ∨ s = "nan".toList then some none
  else
    let mantissa := s.takeWhile fun c => c != 'e' && c != 'E'
    let whole := mantissa.takeWhile (· != '.')
    let fraction := mantissa.drop whole.length
    guard (whole.length < s.length)
    let digits ← fractionDigits fraction
    let n ← decimal whole
    let e ← exponent (s.drop mantissa.length)
    some (some ⟨n * Nat.pow 10 digits.length + natOfBase 10 digits, e - digits.length⟩)

/-- A number of exactly `width` digits. -/
def fixedDigits (width : Nat) (s : List Char) : Option (Nat × List Char) :=
  let digits := s.take width
  if digits.length = width ∧ digits.all Char.isDigit then some (natOfBase 10 digits, s.drop width)
  else none

def skipChar (c : Char) : List Char → Option (List Char)
  | x :: s => if x = c then some s else none
  | [] => none

/-- Every fourth year is a leap year, of the full centuries every fourth. -/
def isLeapYear (year : Nat) : Bool := year % 4 == 0 && (year % 100 != 0 || year % 400 == 0)

def daysIn (year month : Nat) : Nat :=
  if month = 2 then (if isLeapYear year then 29 else 28)
  else if [4, 6, 9, 11].contains month then 30
  else 31

/-- Skips a date. -/
def skipDate (s : List Char) : Option (List Char) := do
  let (year, s) ← fixedDigits 4 s
  let (month, s) ← fixedDigits 2 (← skipChar '-' s)
  let (day, s) ← fixedDigits 2 (← skipChar '-' s)
  if 1 ≤ month ∧ month ≤ 12 ∧ 1 ≤ day ∧ day ≤ daysIn year month then some s else none

/-- Skips hours and minutes. -/
def skipHour (s : List Char) : Option (List Char) := do
  let (hour, s) ← fixedDigits 2 s
  let (minute, s) ← fixedDigits 2 (← skipChar ':' s)
  if hour < 24 ∧ minute < 60 then some s else none

/-- Skips a time of day. The seconds may be missing, and there may be a leap second. -/
def skipTime (s : List Char) : Option (List Char) := do
  match ← skipHour s with
  | ':' :: s =>
    let (second, s) ← fixedDigits 2 s
    guard (second ≤ 60)
    match s with
    | '.' :: c :: s => if c.isDigit then some (s.dropWhile Char.isDigit) else none
    | s => some s
  | s => some s

/-- The distance from universal time, which may be missing. -/
def isOffset : List Char → Bool
  | [] => true
  | ['Z'] | ['z'] => true
  | c :: s => (c == '+' || c == '-') && skipHour s == some []

/-- A date, a time, or both; only both together have an offset. -/
def isDateTime (s : List Char) : Bool :=
  match skipDate s with
  | some [] => true
  | some (c :: s) => (c == 'T' || c == 't' || c == ' ') && (skipTime s).any isOffset
  | none => skipTime s == some []

def isScalarChar (c : Char) : Bool :=
  c.isAlphanum || c == '_' || c == '-' || c == '+' || c == '.' || c == ':'

/-- A value that is neither a text nor bracketed. A date may have a space before its time. -/
def scalar (s : List Char) : Option (Value × List Char) :=
  let word := s.takeWhile isScalarChar
  let rest := s.drop word.length
  let word' := match rest with
    | ' ' :: c :: _ =>
      if c.isDigit ∧ word.length = 10 ∧ isDateTime word then
        word ++ [' '] ++ (rest.drop 1).takeWhile isScalarChar
      else word
    | _ => word
  if word = "true".toList then some (.boolean true, rest)
  else if word = "false".toList then some (.boolean false, rest)
  else match integer word with
    | some n => some (.integer n, rest)
    | none => match float word with
      | some size => some (.float size, rest)
      | none =>
        if isDateTime word' then some (.dateTime (String.ofList word'), s.drop word'.length)
        else none

end MystNotebook.Toml
