/-! Finite doubles as decimal text. Written, a double has the fewest digits that round back to it
and, of those, the nearest; read, a significand of 64 bits is scaled by a power of ten. -/
namespace MystNotebook.Json.Double

/-- The decimal digits, and the power of ten at which the first of them stands. -/
structure Decimal where
  digits : List Char
  exponent : Int
  deriving DecidableEq, Repr

def digitCount (n : Nat) : Nat := (Nat.toDigits 10 n).length

/-- A positive double and the ends of the interval that rounds to it, over one denominator. -/
structure Interval where
  low : Nat
  centre : Nat
  high : Nat
  denominator : Nat
  closed : Bool
  deriving Repr

def isNegative (bits : UInt64) : Bool := bits.toNat / Nat.pow 2 63 == 1

def isZero (bits : UInt64) : Bool := bits.toNat % Nat.pow 2 63 == 0

/-- The distance to the lower neighbour is halved at a power of two, the smallest one apart. -/
def interval (bits : UInt64) : Interval :=
  let biased := bits.toNat / Nat.pow 2 52 % Nat.pow 2 11
  let fraction := bits.toNat % Nat.pow 2 52
  let significand := if biased = 0 then fraction else Nat.pow 2 52 + fraction
  let exponent : Int := ((if biased = 0 then 1 else biased : Nat) : Int) - 1077
  let scale := Nat.pow 2 exponent.toNat
  { low := (4 * significand - if fraction = 0 ∧ 1 < biased then 1 else 2) * scale
    centre := 4 * significand * scale
    high := (4 * significand + 2) * scale
    denominator := Nat.pow 2 (-exponent).toNat
    closed := significand % 2 == 0 }

/-- The power of ten at which the first digit of the centre stands. -/
def Interval.firstDigit (i : Interval) : Int :=
  if i.denominator ≤ i.centre then (digitCount (i.centre / i.denominator) : Int) - 1
  else -(digitCount ((i.denominator + i.centre - 1) / i.centre - 1) : Int)

/-- The neighbours of the centre on the grid of step `10 ^ (-places)`: the nearer one that lies in
the interval, an even one at a tie. -/
def Interval.onGrid (i : Interval) (places : Int) : Option Nat :=
  let up := Nat.pow 10 places.toNat
  let step := i.denominator * Nat.pow 10 (-places).toNat
  let inside := fun n =>
    if i.closed then i.low * up ≤ n * step ∧ n * step ≤ i.high * up
    else i.low * up < n * step ∧ n * step < i.high * up
  let n := i.centre * up / step
  let below := i.centre * up - n * step
  let above := (n + 1) * step - i.centre * up
  if inside n ∧ (¬ inside (n + 1) ∨ below < above ∨ (below = above ∧ n % 2 = 0)) then some n
  else if inside (n + 1) then some (n + 1)
  else none

def dropTrailingZeros (digits : List Char) : List Char :=
  (digits.reverse.dropWhile (· == '0')).reverse

/-- Seventeen digits always suffice. -/
def shortest (bits : UInt64) : Decimal :=
  let i := interval bits
  let first := i.firstDigit
  let found := (List.range 17).findSome? fun d =>
    let places := Int.ofNat d - first
    (i.onGrid places).map fun n => (n, places)
  match found with
  | some (n, places) =>
    ⟨dropTrailingZeros (Nat.toDigits 10 n), (digitCount n : Int) - 1 - places⟩
  | none => ⟨['0'], 0⟩

/-- The powers of ten that are written without an exponent. -/
structure Layout where
  leastPositional : Int
  leastScientific : Int

def jsonLayout : Layout where
  leastPositional := -5
  leastScientific := 16

/-- A point after the first digit, if others follow it. -/
def pointed : List Char → List Char
  | c :: c' :: cs => c :: '.' :: c' :: cs
  | cs => cs

def Layout.write (layout : Layout) (d : Decimal) : List Char :=
  if layout.leastPositional ≤ d.exponent ∧ d.exponent < layout.leastScientific then
    if d.exponent < 0 then
      ['0', '.'] ++ List.replicate ((-d.exponent).toNat - 1) '0' ++ d.digits
    else
      let whole := d.exponent.toNat + 1
      if d.digits.length ≤ whole then
        d.digits ++ List.replicate (whole - d.digits.length) '0' ++ ['.', '0']
      else d.digits.take whole ++ ['.'] ++ d.digits.drop whole
  else
    let sign := if d.exponent < 0 then '-' else '+'
    pointed d.digits ++ ['e', sign] ++ Nat.toDigits 10 d.exponent.natAbs

def write (bits : UInt64) : List Char :=
  let magnitude := if isZero bits then ['0', '.', '0'] else jsonLayout.write (shortest bits)
  if isNegative bits then '-' :: magnitude else magnitude

def powerOfTen (n : Nat) : Float := Float.ofScientific 1 false n

/-- Multiplies by a power of ten in double arithmetic; `none` beyond the largest double. A double of
64 bits is zero after two divisions by the largest power, so three steps reach every exponent. -/
def scale (x : Float) (exponent : Int) : Nat → Option Float
  | 0 => some x
  | steps + 1 =>
    if exponent.natAbs ≤ 308 then
      if 0 ≤ exponent then
        let y := x * powerOfTen exponent.natAbs
        if y.isInf then none else some y
      else some (x / powerOfTen exponent.natAbs)
    else if x == 0 then some x
    else if 0 ≤ exponent then none
    else scale (x / powerOfTen 308) (exponent + 308) steps

/-- The significand is rounded to a double before it is scaled. -/
def ofDecimal (negative : Bool) (significand : Nat) (exponent : Int) : Option UInt64 :=
  (scale significand.toUInt64.toFloat exponent 3).map fun x =>
    (if negative then -x else x).toBits

end MystNotebook.Json.Double
