/-
# Bytes in text

Bytes are written as text in groups of four characters for three bytes, each character for six
bits.  The last group may stand for fewer bytes; equal signs fill it up then, and the bits that no
byte takes are zero.  Nothing else may stand in such a text, so that each run of bytes has one
written form.
-/

namespace AppWatch

namespace Text

/-- The six bits that a character stands for. -/
def sextet? (c : Char) : Option Nat :=
  if 'A' ≤ c ∧ c ≤ 'Z' then some (c.toNat - 'A'.toNat)
  else if 'a' ≤ c ∧ c ≤ 'z' then some (c.toNat - 'a'.toNat + 26)
  else if '0' ≤ c ∧ c ≤ '9' then some (c.toNat - '0'.toNat + 52)
  else if c = '+' then some 62
  else if c = '/' then some 63
  else none

/-- The byte of a group of four characters: twelve bits without the last four. -/
def oneByte? (a b : Char) : Option (List UInt8) := do
  let n := (← sextet? a) * 64 + (← sextet? b)
  if n % 16 = 0 then some [UInt8.ofNat (n / 16)] else none

/-- The two bytes of a group of four characters: eighteen bits without the last two. -/
def twoBytes? (a b c : Char) : Option (List UInt8) := do
  let n := ((← sextet? a) * 64 + (← sextet? b)) * 64 + (← sextet? c)
  if n % 4 = 0 then some [UInt8.ofNat (n / 1024), UInt8.ofNat (n / 4 % 256)] else none

/-- The three bytes of a group of four characters. -/
def threeBytes? (a b c d : Char) : Option (List UInt8) := do
  let n := (((← sextet? a) * 64 + (← sextet? b)) * 64 + (← sextet? c)) * 64 + (← sextet? d)
  return [UInt8.ofNat (n / 65536), UInt8.ofNat (n / 256 % 256), UInt8.ofNat (n % 256)]

/-- The bytes that a text stands for. -/
def ofBase64? : List Char → Option (List UInt8)
  | [] => some []
  | [a, b, '=', '='] => oneByte? a b
  | [a, b, c, '='] => twoBytes? a b c
  | a :: b :: c :: d :: rest => do return (← threeBytes? a b c d) ++ (← ofBase64? rest)
  | _ => none

end Text

end AppWatch
