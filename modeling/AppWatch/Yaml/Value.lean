/-
# What a YAML value denotes

Where anything may stand, a value is what it denotes by itself (`Value.ofYaml?`).  A plain scalar
without a tag is nothing, a truth value, a number or else a text, and every other scalar a text;
the common tags ask for what they name, and a tag that starts with an exclamation mark stays on
the value.  An integer has to fit 64 bits.
-/
import AppWatch.Decimal
import AppWatch.Yaml

namespace AppWatch

namespace Yaml

/-- A number. -/
inductive Number where
  | int (n : Int)
  /-- A double precision number by its shortest decimal; zero has no sign. -/
  | float (x : Decimal)
  | infinity (negative : Bool)
  | notANumber
deriving DecidableEq, Repr

/-- What a YAML value denotes. -/
inductive Value where
  | null
  | bool (b : Bool)
  | num (n : Number)
  | text (s : String)
  | sequence (items : List Value)
  | mapping (entries : List (Value × Value))
  | tagged (name : String) (v : Value)

/-! ## 1. Numerals -/

/-- The exponent that ends a numeral; zero if there is none. -/
def exponent? : List Char → Option Int
  | [] => some 0
  | c :: cs =>
    if c = 'e' || c = 'E' then
      match cs with
      | '-' :: ds => (Text.natural? 10 ds).map fun n => -(n : Int)
      | '+' :: ds | ds => (Text.natural? 10 ds).map fun n => (n : Int)
    else none

/-- The double precision number nearest to `digits · 10 ^ exponent`; none where it is infinite. -/
def nearest? (negative : Bool) (digits : List Char) (exponent : Int) : Option Decimal :=
  let ds := digits.dropWhile (· = '0')
  let places := ds.length + exponent
  if ds.isEmpty || places < -400 then some ⟨false, 0, 0⟩
  else if 400 < places then none
  else do
    let n ← Text.natural? 10 ds
    let x ← Binary.ofQuotient (n * Nat.pow 10 exponent.toNat) (Nat.pow 10 (-exponent).toNat)
    return if x.significand = 0 then ⟨false, 0, 0⟩ else Decimal.ofBinary negative x

/-- The number of digits that may have a point among them or an exponent behind them. -/
def decimal? (negative : Bool) (cs : List Char) : Option Decimal :=
  let whole := cs.takeWhile Char.isDigit
  let (fraction, rest) := match cs.dropWhile Char.isDigit with
    | '.' :: rest => (rest.takeWhile Char.isDigit, rest.dropWhile Char.isDigit)
    | rest => ([], rest)
  if whole.isEmpty && fraction.isEmpty then none
  else (exponent? rest).bind fun e => nearest? negative (whole ++ fraction) (e - fraction.length)

/-- Whether a numeral is one of the words for what is beyond all numbers. -/
def isInfinityWord (cs : List Char) : Bool :=
  cs = ".inf".toList || cs = ".Inf".toList || cs = ".INF".toList

/-- The number with a fraction that a plain scalar denotes. -/
def float? (s : String) : Option Number :=
  let cs := s.toList
  let negative := cs.head? = some '-'
  if isInfinityWord (withoutSign cs) then some (.infinity negative)
  else if s = ".nan" || s = ".NaN" || s = ".NAN" then some .notANumber
  else (decimal? negative (withoutSign cs)).map .float

/-- The integer as a value, if it fits 64 bits. -/
def ofInteger? (n : Int) : Option Value :=
  if Int64.minValue.toInt ≤ n ∧ n < UInt64.size then some (.num (.int n)) else none

/-! ## 2. Scalars -/

/-- Whether an integer is written with more digits than 128 bits hold; it is none then. -/
def isTooWide (n : Int) : Bool := n < -Int.pow 2 127 || Int.pow 2 128 ≤ n

/-- The integer that a plain scalar denotes, unless it is too wide for one. -/
def wideInteger? (s : String) : Option Int := (integer? s).filter (!isTooWide ·)

namespace Value

/-- What a plain scalar without a tag denotes. -/
def ofPlain? (s : String) : Option Value :=
  if s = "" || isNullWord s then some null
  else match truth? s, wideInteger? s with
    | some b, _ => some (bool b)
    | none, some n => ofInteger? n
    | none, none =>
      if isPadded s.toList then some (text s)
      else some (((float? s).map num).getD (text s))

/-- What a scalar under a tag of the common schema denotes; the name of the tag is given. -/
def ofTagged? (name s : String) : Option Value :=
  match name with
  | "bool" => (truth? s).map bool
  | "int" => (wideInteger? s).bind ofInteger?
  | "float" => (float? s).map num
  | "null" => if isNullWord s then some null else none
  | _ => some (text s)

/-- What a scalar without a tag of its own denotes. -/
def ofUntagged? (style : Style) (s : String) : Option Value :=
  if style = .plain then ofPlain? s else some (text s)

/-- What a scalar denotes. -/
def ofScalar? (s : String) (style : Style) : Option String → Option Value
  | none => ofUntagged? style s
  | some tag =>
    match tag.toList with
    | '!' :: name =>
      if name.isEmpty then none
      else (ofUntagged? style s).map (tagged (String.ofList name))
    | cs =>
      if schema.toList.isPrefixOf cs then
        ofTagged? (String.ofList (cs.drop schema.length)) s
      else some (text s)

/-- Puts the tag of a collection on it, if it starts with an exclamation mark. -/
def withTag? (v : Value) : Option String → Option Value
  | none => some v
  | some tag =>
    match tag.toList with
    | '!' :: name => if name.isEmpty then none else some (tagged (String.ofList name) v)
    | _ => some v

mutual

/-- What a value denotes. -/
def ofYaml? : Yaml → Option Value
  | .scalar s style tag => ofScalar? s style tag
  | .sequence items tag => do withTag? (sequence (← ofItems? items)) tag
  | .mapping entries tag => do withTag? (mapping (← ofEntries? entries)) tag

/-- What the items of a sequence denote. -/
def ofItems? : List Yaml → Option (List Value)
  | [] => some []
  | y :: ys => do return (← ofYaml? y) :: (← ofItems? ys)

/-- What the entries of a mapping denote. -/
def ofEntries? : List (Yaml × Yaml) → Option (List (Value × Value))
  | [] => some []
  | (k, v) :: es => do return (← ofYaml? k, ← ofYaml? v) :: (← ofEntries? es)

end

/-! ## 3. Tags -/

/-- The value without the tags on it. -/
def untag : Value → Value
  | tagged _ v => untag v
  | v => v

mutual

/-- Whether a tag stands on any part of a value. -/
def hasTag : Value → Bool
  | null | bool _ | num _ | text _ => false
  | sequence items => itemsHaveTag items
  | mapping entries => entriesHaveTag entries
  | tagged _ _ => true

/-- Whether a tag stands on any part of the items. -/
def itemsHaveTag : List Value → Bool
  | [] => false
  | v :: vs => hasTag v || itemsHaveTag vs

/-- Whether a tag stands on any part of the entries. -/
def entriesHaveTag : List (Value × Value) → Bool
  | [] => false
  | (k, v) :: es => hasTag k || hasTag v || entriesHaveTag es

end

/-! ## 4. Repeated keys -/

mutual

/-- Whether two values are the same; the order of entries does not matter. -/
def isSame : Value → Value → Bool
  | null, w => match w with
    | null => true
    | _ => false
  | bool a, w => match w with
    | bool b => a == b
    | _ => false
  | num a, w => match w with
    | num b => a = b
    | _ => false
  | text a, w => match w with
    | text b => a = b
    | _ => false
  | sequence a, w => match w with
    | sequence b => areSame a b
    | _ => false
  | mapping a, w => match w with
    | mapping b => a.length = b.length && areAmong b a
    | _ => false
  | tagged a v, w => match w with
    | tagged b x => a = b && isSame v x
    | _ => false

/-- Whether two lists of values are the same. -/
def areSame : List Value → List Value → Bool
  | [], [] => true
  | v :: vs, w :: ws => isSame v w && areSame vs ws
  | _, _ => false

/-- Whether all entries are among the given ones. -/
def areAmong (given : List (Value × Value)) : List (Value × Value) → Bool
  | [] => true
  | (k, v) :: es => given.any (fun g => isSame k g.1 && isSame v g.2) && areAmong given es

end

mutual

/-- Whether no mapping in a value repeats a key. -/
def hasDistinctKeys : Value → Bool
  | null | bool _ | num _ | text _ => true
  | sequence items => itemsHaveDistinctKeys items
  | mapping entries => entriesHaveDistinctKeys entries
  | tagged _ v => hasDistinctKeys v

/-- Whether no mapping in any of the items repeats a key. -/
def itemsHaveDistinctKeys : List Value → Bool
  | [] => true
  | v :: vs => hasDistinctKeys v && itemsHaveDistinctKeys vs

/-- Whether the entries repeat no key, nor any mapping in them. -/
def entriesHaveDistinctKeys : List (Value × Value) → Bool
  | [] => true
  | (k, v) :: es =>
    hasDistinctKeys k && hasDistinctKeys v && !es.any (fun e => isSame k e.1) &&
      entriesHaveDistinctKeys es

end

end Value

end Yaml

end AppWatch
