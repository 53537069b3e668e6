/-
# Reading JSON numerals

The digits of a numeral are gathered in a 64-bit significand; once a further digit does not fit,
the rest of that part of the numeral only moves the decimal point.  A numeral without fraction
and exponent whose value fits a 64-bit integer is an integer; minus zero and every other numeral
is a double precision number.
-/
import AppWatch.Json

namespace AppWatch

namespace Json

namespace Numeral

/-- The largest significand. -/
def limit : Nat := UInt64.size - 1

/-- A significand with the power of ten it stands for; `full` once a digit did not fit. -/
structure Gathered where
  significand : Nat := 0
  exponent : Int := 0
  full : Bool := false

/-- The value of a decimal digit. -/
def digitValue (c : Char) : Nat := c.toNat - '0'.toNat

/-- Takes in a digit before the point. -/
def Gathered.integerDigit (g : Gathered) (c : Char) : Gathered :=
  let next := g.significand * 10 + digitValue c
  if !g.full && next ≤ limit then ⟨next, g.exponent, false⟩
  else ⟨g.significand, g.exponent + 1, true⟩

/-- Takes in a digit behind the point. -/
def Gathered.fractionDigit (g : Gathered) (c : Char) : Gathered :=
  let next := g.significand * 10 + digitValue c
  if !g.full && next ≤ limit then ⟨next, g.exponent - 1, false⟩
  else ⟨g.significand, g.exponent, true⟩

/-- The natural number of a digit string. -/
def digitsValue (ds : List Char) : Nat := ds.foldl (fun n c => n * 10 + digitValue c) 0

/-- The written parts of a numeral: sign, digits before the point, digits behind it if there is a
point, and the exponent if there is one. -/
structure Parts where
  negative : Bool
  integer : List Char
  fraction : Option (List Char)
  exponent : Option Int

/-- Splits off the sign of an exponent. -/
def exponentSign : List Char → Bool × List Char
  | '+' :: cs => (false, cs)
  | '-' :: cs => (true, cs)
  | cs => (false, cs)

/-- The exponent behind the digits, which ends the numeral. -/
def exponentPart? : List Char → Option (Option Int)
  | [] => some none
  | c :: cs =>
    if c = 'e' ∨ c = 'E' then
      let (negative, ds) := exponentSign cs
      if ds.isEmpty ∨ !ds.all Char.isDigit then none
      else some (some (if negative then -(digitsValue ds : Int) else digitsValue ds))
    else none

/-- Splits a numeral into its parts: no leading zero, and a digit behind a point. -/
def parts? (word : List Char) : Option Parts :=
  let (negative, cs) := match word with
    | '-' :: cs => (true, cs)
    | cs => (false, cs)
  let integer := cs.takeWhile Char.isDigit
  let rest := cs.dropWhile Char.isDigit
  if integer.isEmpty ∨ (integer.head? = some '0' ∧ integer.length ≠ 1) then none
  else match rest with
    | '.' :: cs =>
      let fraction := cs.takeWhile Char.isDigit
      if fraction.isEmpty then none
      else (exponentPart? (cs.dropWhile Char.isDigit)).map
        fun e => ⟨negative, integer, some fraction, e⟩
    | cs => (exponentPart? cs).map fun e => ⟨negative, integer, none, e⟩

/-- The number that the parts denote, `none` where it is too large. -/
def Parts.value? (p : Parts) : Option JsonNumber :=
  let whole := p.integer.foldl Gathered.integerDigit {}
  match p.fraction, p.exponent with
  | none, none =>
    if whole.full then floating whole 0
    else if !p.negative then some (.int whole.significand)
    else if 0 < whole.significand ∧ whole.significand ≤ 1 <<< 63 then
      some (.int (-(whole.significand : Int)))
    else floating whole 0
  | fraction, exponent =>
    let g : Gathered := (fraction.getD []).foldl Gathered.fractionDigit
      ⟨whole.significand, whole.exponent, false⟩
    floating g (exponent.getD 0)
where
  /-- The double precision number of the gathered digits. -/
  floating (g : Gathered) (shift : Int) : Option JsonNumber :=
    (Decimal.ofScientific? p.negative g.significand (g.exponent + shift)).map .float

end Numeral

/-- The number that a word denotes. -/
def number? (word : List Char) : Option JsonNumber :=
  (Numeral.parts? word).bind Numeral.Parts.value?

end Json

end AppWatch
