/-
# Decimal numerals of double precision numbers

`Decimal.ofBinary` gives the shortest decimal that lies in the interval of reals rounding to a
magnitude, and of several the nearest; an exact tie goes to the even digit string.  It tests the
two neighbours of the value on the grids of one, two, ... seventeen digits.

`Decimal.text` writes a decimal with a fraction always, positionally from `1e-5` up to below
`1e16` and with an exponent of explicit sign otherwise.
-/
import AppWatch.Decimal.Binary

namespace AppWatch

/-- A decimal `± digits · 10 ^ exponent`; `digits` has no trailing zero unless it is zero, and
then the exponent is zero. -/
structure Decimal where
  negative : Bool
  digits : Nat
  exponent : Int
deriving DecidableEq, Repr

namespace Decimal

/-! ## 1. The shortest decimal of a magnitude -/

/-- Drops trailing zeros, at most `steps` of them. -/
def stripZeros : Nat → Nat → Int → Nat × Int
  | 0, d, e => (d, e)
  | steps + 1, d, e => if d % 10 = 0 then stripZeros steps (d / 10) (e + 1) else (d, e)

/-- The decimal with the given value and sign. -/
def normal (negative : Bool) (d : Nat) (e : Int) : Decimal :=
  if d = 0 then ⟨negative, 0, 0⟩
  else
    let r := stripZeros (d.log2 + 1) d e
    ⟨negative, r.1, r.2⟩

/-- Four times the ends of the interval of reals that round to a magnitude, in units of the
magnitude's last place: one place to each side, half of it below a power of two. -/
def interval (x : Binary) : Nat × Nat :=
  let m := 4 * x.significand
  let below := if x.significand = 1 <<< 52 ∧ Binary.minExponent < x.exponent then 1 else 2
  (m - below, m + 2)

/-- `a · 2 ^ p · 10 ^ q` as a quotient of natural numbers. -/
def scaled (a : Nat) (p q : Int) : Nat × Nat :=
  ((a <<< p.toNat) * Nat.pow 10 q.toNat, Nat.pow 10 (-q).toNat <<< (-p).toNat)

/-- The neighbour of `x` on the grid of multiples of `10 ^ k` that rounds to `x`; of two the
nearer, and of two equally near ones the even one. -/
def onGrid? (x : Binary) (k : Int) : Option Nat :=
  let level (a : Nat) : Nat × Nat := scaled a (x.exponent - 2) (-k)
  let value := level (4 * x.significand)
  let low := level (interval x).1
  let high := level (interval x).2
  let closed : Bool := x.significand % 2 = 0
  let inside (c : Nat) : Bool :=
    if closed then low.1 ≤ c * low.2 && c * high.2 ≤ high.1
    else low.1 < c * low.2 && c * high.2 < high.1
  let c := value.1 / value.2
  match inside c, inside (c + 1) with
  | true, true =>
    let twice := 2 * (value.1 % value.2)
    if twice < value.2 then some c
    else if value.2 < twice then some (c + 1)
    else if c % 2 = 0 then some c else some (c + 1)
  | true, false => some c
  | false, true => some (c + 1)
  | false, false => none

/-- The exponent of the leading decimal digit of a positive quotient. -/
def leadingPlace (num den : Nat) : Int :=
  if den ≤ num then ((Nat.toDigits 10 (num / den)).length : Int) - 1
  else
    -- the place of the first digit of `num / den < 1`, from the digit counts of both parts
    let guess : Int := (Nat.toDigits 10 num).length - (Nat.toDigits 10 den).length
    if num * Nat.pow 10 (-guess).toNat < den then guess - 1 else guess

/-- Tries the grids of `n`, `n + 1`, ... digits, `tries` of them. -/
def search (x : Binary) (place : Int) : Nat → Nat → Option (Nat × Int)
  | 0, _ => none
  | tries + 1, n =>
    let k := place + 1 - n
    match onGrid? x k with
    | some c => some (c, k)
    | none => search x place tries (n + 1)

/-- The shortest decimal that rounds to the magnitude, with a sign. -/
def ofBinary (negative : Bool) (x : Binary) : Decimal :=
  if x.significand = 0 then ⟨negative, 0, 0⟩
  else
    let q := x.quotient
    match search x (leadingPlace q.1 q.2) 17 1 with
    | some (c, k) => normal negative c k
    | none => ⟨negative, 0, 0⟩

/-! ## 2. Text -/

/-- `n` zeros. -/
def zeros (n : Nat) : String := String.ofList (List.replicate n '0')

/-- The decimal as text: positional while the point stands between five places before the digits
and sixteen places after their start, and with an exponent otherwise. -/
def text (d : Decimal) : String :=
  let sign := if d.negative then "-" else ""
  let ds := Nat.toDigits 10 d.digits
  let point : Int := ds.length + d.exponent
  let body :=
    if d.digits = 0 then "0.0"
    else if 0 ≤ d.exponent ∧ point ≤ 16 then
      String.ofList ds ++ zeros d.exponent.toNat ++ ".0"
    else if 0 < point ∧ point ≤ 16 then
      String.ofList (ds.take point.toNat) ++ "." ++ String.ofList (ds.drop point.toNat)
    else if -5 < point ∧ point ≤ 0 then
      "0." ++ zeros (-point).toNat ++ String.ofList ds
    else
      let e := point - 1
      let mantissa := match ds with
        | [] => ""
        | [c] => c.toString
        | c :: rest => c.toString ++ "." ++ String.ofList rest
      mantissa ++ (if 0 ≤ e then "e+" else "e-") ++ toString e.natAbs
  sign ++ body

/-- The numeral nearest to `w · 10 ^ e` among the double precision numbers. -/
def ofScientific? (negative : Bool) (w : Nat) (e : Int) : Option Decimal :=
  (Binary.ofScientific w e).map (ofBinary negative)

end Decimal

end AppWatch
