/-
# Double precision magnitudes

A double precision magnitude is `significand · 2 ^ exponent` with at most 53 significant bits.
`ofQuotient` rounds an exact quotient to the nearest one, an exact half to the even
significand, in natural number arithmetic only, so that everything computed from it evaluates
in the logic.
-/

namespace AppWatch

/-- A finite double precision magnitude, `significand · 2 ^ exponent`. -/
structure Binary where
  significand : Nat
  exponent : Int
deriving DecidableEq, Repr

namespace Binary

/-- Zero. -/
def zero : Binary := ⟨0, -1074⟩

/-- The exponent of the smallest magnitudes. -/
def minExponent : Int := -1074

/-- The largest exponent of a magnitude with a full significand. -/
def maxExponent : Int := 971

/-- `a / b` rounded to the nearest natural number, a half to the even one. -/
def roundDiv (a b : Nat) : Nat :=
  let q := a / b
  let twice := 2 * (a % b)
  if twice < b then q
  else if b < twice then q + 1
  else if q % 2 = 0 then q else q + 1

/-- `num / den` rounded to a multiple of `2 ^ e`. -/
def roundAt (num den : Nat) (e : Int) : Nat :=
  if 0 ≤ e then roundDiv num (den <<< e.toNat) else roundDiv (num <<< (-e).toNat) den

/-- The exponent at which `num / den` has a significand of 53 bits, or the least one. -/
def exponentFor (num den : Nat) : Int :=
  let guess : Int := (Nat.log2 num : Int) - (Nat.log2 den : Int) - 52
  let scaledBelow : Bool :=
    if 0 ≤ guess then num < (den <<< guess.toNat) <<< 52
    else num <<< (-guess).toNat < den <<< 52
  max minExponent (if scaledBelow then guess - 1 else guess)

/-- The magnitude nearest to `num / den`, or `none` where it would be infinite. -/
def ofQuotient (num den : Nat) : Option Binary :=
  if num = 0 then some zero
  else
    let e := exponentFor num den
    let m := roundAt num den e
    let x : Binary := if m = 1 <<< 53 then ⟨1 <<< 52, e + 1⟩ else ⟨m, e⟩
    if maxExponent < x.exponent then none
    else if x.significand = 0 then some zero
    else some x

/-- The value as a quotient of natural numbers. -/
def quotient (x : Binary) : Nat × Nat :=
  if 0 ≤ x.exponent then (x.significand <<< x.exponent.toNat, 1)
  else (x.significand, 1 <<< (-x.exponent).toNat)

/-- The magnitude nearest to a natural number. -/
def ofNat (n : Nat) : Option Binary := ofQuotient n 1

/-- The product of two magnitudes, rounded to the nearest. -/
def mul (x y : Binary) : Option Binary :=
  ofQuotient (x.quotient.1 * y.quotient.1) (x.quotient.2 * y.quotient.2)

/-- The quotient of two magnitudes, rounded to the nearest. -/
def div (x y : Binary) : Option Binary :=
  ofQuotient (x.quotient.1 * y.quotient.2) (x.quotient.2 * y.quotient.1)

/-- The magnitude nearest to `10 ^ k`. -/
def powTen (k : Nat) : Option Binary := ofNat (Nat.pow 10 k)

/-- The largest power of ten that is a finite magnitude. -/
def maxPowTen : Nat := 308

/-- Divides by `10 ^ k`, in steps no larger than the largest power of ten, each rounded. -/
def divPowTen (x : Binary) (k : Nat) : Option Binary :=
  if k ≤ maxPowTen then (powTen k).bind x.div
  else if x.significand = 0 then some x
  else ((powTen maxPowTen).bind x.div).bind fun y => divPowTen y (k - maxPowTen)
termination_by k
decreasing_by simp only [maxPowTen] at *; omega

/-- Multiplies by `10 ^ k`; `none` where the result would be infinite. -/
def mulPowTen (x : Binary) (k : Nat) : Option Binary :=
  if k ≤ maxPowTen then (powTen k).bind x.mul
  else if x.significand = 0 then some x
  else none

/-- `w · 10 ^ e`, each of the at most three steps (the whole number, the power of ten and their
product or quotient) rounded to the nearest magnitude. -/
def ofScientific (w : Nat) (e : Int) : Option Binary :=
  (ofNat w).bind fun x => if 0 ≤ e then x.mulPowTen e.toNat else x.divPowTen (-e).toNat

end Binary

end AppWatch
