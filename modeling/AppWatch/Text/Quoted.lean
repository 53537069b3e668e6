/-
# Quoted text

`Text.quoted` shows a text between quotes so that every character can be told from every other:
the quote, the backslash and the common control characters by a letter, every other character
without a glyph of its own by its code in hexadecimal digits, and the rest as it is.
-/
import AppWatch.Text.Invisible

namespace AppWatch

namespace Text

/-- How a character stands inside quoted text. -/
def quotedChar (c : Char) : List Char :=
  if c = '"' then ['\\', '"']
  else if c = '\\' then ['\\', '\\']
  else if c = '\n' then ['\\', 'n']
  else if c = '\r' then ['\\', 'r']
  else if c = '\t' then ['\\', 't']
  else if c = '\x00' then ['\\', '0']
  else if isInvisible c then
    ['\\', 'u', '\x7b'] ++ Nat.toDigits 16 c.toNat ++ ['\x7d']
  else [c]

/-- The text between quotes. -/
def quoted (s : String) : String :=
  "\"" ++ String.ofList (s.toList.flatMap quotedChar) ++ "\""

end Text

end AppWatch
