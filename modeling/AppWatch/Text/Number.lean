/-
# Natural numbers in text

`Text.natural?` reads a run of digits to a base; `Text.wholeNumber?` reads a decimal number that
has to stay below a bound and may have a plus sign in front.
-/

namespace AppWatch

namespace Text

/-- The value of a hexadecimal digit. -/
def hexDigit? (c : Char) : Option Nat :=
  if '0' ≤ c ∧ c ≤ '9' then some (c.toNat - '0'.toNat)
  else if 'a' ≤ c ∧ c ≤ 'f' then some (c.toNat - 'a'.toNat + 10)
  else if 'A' ≤ c ∧ c ≤ 'F' then some (c.toNat - 'A'.toNat + 10)
  else none

/-- The value of a digit to a base of at most sixteen. -/
def digit? (base : Nat) (c : Char) : Option Nat := (hexDigit? c).filter (· < base)

/-- The number that the digits denote, after a number already read. -/
def digits? (base : Nat) (before : Nat) : List Char → Option Nat
  | [] => some before
  | c :: cs => (digit? base c).bind fun d => digits? base (before * base + d) cs

/-- The number that a run of at least one digit denotes. -/
def natural? (base : Nat) : List Char → Option Nat
  | [] => none
  | cs => digits? base 0 cs

/-- Drops a plus sign in front. -/
def withoutPlus : List Char → List Char
  | '+' :: cs => cs
  | cs => cs

/-- The decimal number that a text denotes, if it is below the bound. -/
def wholeNumber? (bound : Nat) (s : String) : Option Nat :=
  (natural? 10 (withoutPlus s.toList)).filter (· < bound)

/-- The decimal number that a text denotes, if it fits 64 bits. -/
def word? (s : String) : Option UInt64 := (wholeNumber? UInt64.size s).map UInt64.ofNat

end Text

end AppWatch
