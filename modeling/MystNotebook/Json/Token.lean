import MystNotebook.Json.Value
import MystNotebook.Json.Double

/-! The tokens of a JSON text, cut one character at a time. -/
namespace MystNotebook.Json

/-- The digits that still fit into 64 bits when they follow `n`, and how many are left over. -/
def fitting (n : Nat) : List Char → Nat × Nat
  | [] => (n, 0)
  | c :: cs =>
    let m := 10 * n + (c.toNat - '0'.toNat)
    if m < UInt64.size then fitting m cs else (n, (c :: cs).length)

/-- A number without fraction and exponent is an integer if it fits into 64 bits; the integer zero
has no sign. -/
def Number.ofParts (negative : Bool) (whole : List Char) (fraction : Option (List Char))
    (exponent : Option Int) : Option Number :=
  let (n, dropped) := fitting 0 whole
  match fraction, exponent with
  | none, none =>
    if dropped = 0 ∧ ¬ negative then some (.int n)
    else if dropped = 0 ∧ 0 < n ∧ n ≤ UInt64.size / 2 then some (.int (-n))
    else (Double.ofDecimal negative n dropped).map .double
  | _, _ =>
    let digits := fraction.getD []
    let (m, ignored) := fitting n digits
    let shift := (dropped : Int) - (digits.length - ignored : Nat) + exponent.getD 0
    (Double.ofDecimal negative m shift).map .double

def digitsOnly (cs : List Char) : Bool := !cs.isEmpty && cs.all Char.isDigit

def natOfDigits (cs : List Char) : Nat :=
  cs.foldl (fun n c => 10 * n + (c.toNat - '0'.toNat)) 0

/-- The text of an exponent, after its letter. -/
def readExponent : List Char → Option Int
  | '-' :: ds => if digitsOnly ds then some (-(natOfDigits ds : Int)) else none
  | '+' :: ds => if digitsOnly ds then some (natOfDigits ds) else none
  | ds => if digitsOnly ds then some (natOfDigits ds) else none

def isWhole : List Char → Bool
  | ['0'] => true
  | '0' :: _ => false
  | cs => digitsOnly cs

def readUnsigned (negative : Bool) (cs : List Char) : Option Number := do
  let whole := cs.takeWhile Char.isDigit
  let rest := cs.dropWhile Char.isDigit
  guard (isWhole whole)
  let (fraction, rest) ← match rest with
    | '.' :: tail =>
      let digits := tail.takeWhile Char.isDigit
      if digits.isEmpty then none else some (some digits, tail.dropWhile Char.isDigit)
    | _ => some (none, rest)
  match rest with
  | [] => Number.ofParts negative whole fraction none
  | e :: tail => do
    guard (e = 'e' ∨ e = 'E')
    let exponent ← readExponent tail
    Number.ofParts negative whole fraction (some exponent)

def Number.read : List Char → Option Number
  | '-' :: cs => readUnsigned true cs
  | cs => readUnsigned false cs

inductive Token where
  | openArray | closeArray | openObject | closeObject | comma | colon
  | scalar (value : Value)

/-- What the characters read so far leave open; texts are kept with the latest character first. -/
inductive Pending where
  | nothing
  | word (text : List Char)
  | number (text : List Char)
  | string (text : List Char)
  | escape (text : List Char)
  | hex (text : List Char) (high : Option Nat) (code : Nat) (missing : Nat)
  /-- A first half of a surrogate pair, which has to be followed by a second half. -/
  | afterHigh (text : List Char) (high : Nat)
  | afterHighEscape (text : List Char) (high : Nat)

structure Lexer where
  tokens : List Token := []
  pending : Pending := .nothing

def isNumberChar (c : Char) : Bool :=
  c.isDigit || c == '-' || c == '+' || c == '.' || c == 'e' || c == 'E'

def hexValue (c : Char) : Option Nat :=
  if c.isDigit then some (c.toNat - '0'.toNat)
  else if 'a' ≤ c ∧ c ≤ 'f' then some (c.toNat - 'a'.toNat + 10)
  else if 'A' ≤ c ∧ c ≤ 'F' then some (c.toNat - 'A'.toNat + 10)
  else none

def wordValue (text : List Char) : Option Value :=
  if text = ['t', 'r', 'u', 'e'] then some (.bool true)
  else if text = ['f', 'a', 'l', 's', 'e'] then some (.bool false)
  else if text = ['n', 'u', 'l', 'l'] then some .null
  else none

def simpleEscape (c : Char) : Option Char :=
  match c with
  | '"' => some '"'
  | '\\' => some '\\'
  | '/' => some '/'
  | 'b' => some '\x08'
  | 'f' => some '\x0c'
  | 'n' => some '\n'
  | 'r' => some '\r'
  | 't' => some '\t'
  | _ => none

/-- The character of a finished escape of four digits; half a surrogate pair is not a character. -/
def closeHex (text : List Char) (high : Option Nat) (code : Nat) : Option Pending :=
  match high with
  | some h =>
    if 0xDC00 ≤ code ∧ code ≤ 0xDFFF then
      some (.string (Char.ofNat (0x10000 + (h - 0xD800) * 0x400 + (code - 0xDC00)) :: text))
    else none
  | none =>
    if 0xD800 ≤ code ∧ code ≤ 0xDBFF then some (.afterHigh text code)
    else if 0xDC00 ≤ code ∧ code ≤ 0xDFFF then none
    else some (.string (Char.ofNat code :: text))

namespace Lexer

def emit (l : Lexer) (t : Token) : Lexer := { tokens := t :: l.tokens, pending := .nothing }

/-- A character where a token may start. -/
def start (l : Lexer) (c : Char) : Option Lexer :=
  match c with
  | ' ' | '\n' | '\t' | '\r' => some { l with pending := .nothing }
  | '[' => some (l.emit .openArray)
  | ']' => some (l.emit .closeArray)
  | '\x7b' => some (l.emit .openObject)
  | '\x7d' => some (l.emit .closeObject)
  | ',' => some (l.emit .comma)
  | ':' => some (l.emit .colon)
  | '"' => some { l with pending := .string [] }
  | c =>
    if c.isDigit || c == '-' then some { l with pending := .number [c] }
    else if c.isAlpha then some { l with pending := .word [c] }
    else none

/-- Ends a word or a number, which nothing but the next character closes. -/
def flush (l : Lexer) : Option Lexer :=
  match l.pending with
  | .nothing => some l
  | .word text => (wordValue text.reverse).map fun v => l.emit (.scalar v)
  | .number text => (Number.read text.reverse).map fun n => l.emit (.scalar (.number n))
  | _ => none

def step (l : Lexer) (c : Char) : Option Lexer :=
  match l.pending with
  | .nothing => l.start c
  | .word text =>
    if c.isAlpha then some { l with pending := .word (c :: text) }
    else l.flush.bind (·.start c)
  | .number text =>
    if isNumberChar c then some { l with pending := .number (c :: text) }
    else l.flush.bind (·.start c)
  | .string text =>
    if c = '"' then some (l.emit (.scalar (.string (String.ofList text.reverse))))
    else if c = '\\' then some { l with pending := .escape text }
    else if c.toNat < 0x20 then none
    else some { l with pending := .string (c :: text) }
  | .escape text =>
    if c = 'u' then some { l with pending := .hex text none 0 4 }
    else (simpleEscape c).map fun x => { l with pending := .string (x :: text) }
  | .hex text high code missing => do
    let d ← hexValue c
    if missing = 1 then
      let pending ← closeHex text high (16 * code + d)
      some { l with pending := pending }
    else some { l with pending := .hex text high (16 * code + d) (missing - 1) }
  | .afterHigh text high =>
    if c = '\\' then some { l with pending := .afterHighEscape text high } else none
  | .afterHighEscape text high =>
    if c = 'u' then some { l with pending := .hex text (some high) 0 4 } else none

end Lexer

def tokens (text : List Char) : Option (List Token) := do
  let l ← text.foldlM Lexer.step {}
  let l ← l.flush
  some l.tokens.reverse

end MystNotebook.Json
