/-
# Compact JSON text

`Json.text` writes a value without blanks.  Inside strings only the quote, the backslash and
control characters are escaped; every other character stands for itself.
-/
import AppWatch.Json

namespace AppWatch

namespace Json

/-- The lower case hexadecimal digits of a number below 256, two of them. -/
def hexByte (n : Nat) : List Char := [Nat.digitChar (n / 16), Nat.digitChar (n % 16)]

/-- How a character stands inside a string. -/
def escapeChar (c : Char) : List Char :=
  if c = '"' then ['\\', '"']
  else if c = '\\' then ['\\', '\\']
  else if c = '\x08' then ['\\', 'b']
  else if c = '\x0c' then ['\\', 'f']
  else if c = '\n' then ['\\', 'n']
  else if c = '\r' then ['\\', 'r']
  else if c = '\t' then ['\\', 't']
  else if c.toNat < 32 then '\\' :: 'u' :: '0' :: '0' :: hexByte c.toNat
  else [c]

/-- A string between quotes. -/
def quote (s : String) : String :=
  "\"" ++ String.ofList (s.toList.flatMap escapeChar) ++ "\""

/-- The text of a number. -/
def numberText : JsonNumber → String
  | .int n => toString n
  | .float x => x.text

mutual

/-- The compact text of a value. -/
def text : Json → String
  | null => "null"
  | bool true => "true"
  | bool false => "false"
  | num n => numberText n
  | str s => quote s
  | arr items => "[" ++ ",".intercalate (itemTexts items) ++ "]"
  | obj members => "\x7b" ++ ",".intercalate (memberTexts members) ++ "\x7d"

/-- The texts of the items of an array. -/
def itemTexts : List Json → List String
  | [] => []
  | x :: xs => text x :: itemTexts xs

/-- The texts of the members of an object, name and value. -/
def memberTexts : List (String × Json) → List String
  | [] => []
  | (name, x) :: xs => (quote name ++ ":" ++ text x) :: memberTexts xs

end

end Json

end AppWatch
