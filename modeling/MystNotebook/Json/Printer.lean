import MystNotebook.Json.Value
import MystNotebook.Json.Double

/-! JSON values as text, on one line or indented by two blanks. -/
namespace MystNotebook.Json

def hexDigit (n : Nat) : Char := Nat.digitChar n

/-- Quotes, backslashes and the controls below the blank are escaped, and nothing else. -/
def escapedChar (c : Char) : List Char :=
  if c = '"' then ['\\', '"']
  else if c = '\\' then ['\\', '\\']
  else if c = '\n' then ['\\', 'n']
  else if c = '\r' then ['\\', 'r']
  else if c = '\t' then ['\\', 't']
  else if c = '\x08' then ['\\', 'b']
  else if c = '\x0c' then ['\\', 'f']
  else if c.toNat < 0x20 then
    ['\\', 'u', '0', '0', hexDigit (c.toNat / 16), hexDigit (c.toNat % 16)]
  else [c]

def quote (s : String) : List Char := ['"'] ++ s.toList.flatMap escapedChar ++ ['"']

def Number.text : Number → List Char
  | .int i => (toString i).toList
  | .double bits => Double.write bits

namespace Value

mutual

/-- The text without any blanks between tokens. -/
def compact : Value → List Char
  | .null => "null".toList
  | .bool b => if b then "true".toList else "false".toList
  | .number n => n.text
  | .string s => quote s
  | .array items => ['['] ++ compactItems items ++ [']']
  | .object fields => ['\x7b'] ++ compactFields fields ++ ['\x7d']

def compactItems : List Value → List Char
  | [] => []
  | [v] => compact v
  | v :: vs => compact v ++ [','] ++ compactItems vs

def compactFields : List (String × Value) → List Char
  | [] => []
  | [(k, v)] => quote k ++ [':'] ++ compact v
  | (k, v) :: fs => quote k ++ [':'] ++ compact v ++ [','] ++ compactFields fs

end

def newline (depth : Nat) : List Char := '\n' :: List.replicate (2 * depth) ' '

mutual

/-- The text with every item and field on a line of its own; empty arrays and objects stay on one
line. -/
def indented (depth : Nat) : Value → List Char
  | .array [] => ['[', ']']
  | .array items => ['['] ++ indentedItems (depth + 1) items ++ newline depth ++ [']']
  | .object [] => ['\x7b', '\x7d']
  | .object fields => ['\x7b'] ++ indentedFields (depth + 1) fields ++ newline depth ++ ['\x7d']
  | .null => compact .null
  | .bool b => compact (.bool b)
  | .number n => n.text
  | .string s => quote s

def indentedItems (depth : Nat) : List Value → List Char
  | [] => []
  | [v] => newline depth ++ indented depth v
  | v :: vs => newline depth ++ indented depth v ++ [','] ++ indentedItems depth vs

def indentedFields (depth : Nat) : List (String × Value) → List Char
  | [] => []
  | [(k, v)] => newline depth ++ quote k ++ [':', ' '] ++ indented depth v
  | (k, v) :: fs =>
    newline depth ++ quote k ++ [':', ' '] ++ indented depth v ++ [','] ++ indentedFields depth fs

end

end Value
end MystNotebook.Json
