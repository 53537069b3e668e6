/-
# Reading typed values from JSON

A decoder reads a JSON text as it is written; it either gives its value or says what stood in the
way.  The members of an object are visited in the order in which they stand, which for a value is
the ascending order of their names, and the first that cannot be read gives the error.  Required
fields that are absent are reported afterwards, in the order the record declares them.

A `Layout` is a record that may be given as an object or as the array of its fields in declared
order, and no field of it may be given twice; `decodeMembers` reads records that must be objects.
Both pass over members that the record does not have.
-/
import AppWatch.Json.Written
import AppWatch.Text.Quoted

namespace AppWatch

/-! ## 1. What can go wrong -/

/-- What was found where something else was wanted. -/
inductive Found where
  | null
  | boolean (b : Bool)
  | integer (n : Int)
  | float (x : Decimal)
  | text (s : String)
  | sequence
  | map
deriving DecidableEq, Repr

/-- Why a text is no point in time. -/
inductive TimeProblem where
  | tooShort
  | tooLong
  | invalid
  | outOfRange
  /-- The offset leads out of the calendar. -/
  | impossible
deriving DecidableEq, Repr

/-- Why a JSON value could not be read. -/
inductive DecodeError where
  /-- A value of another type. -/
  | wrongType (found : Found) (wanted : String)
  /-- An integer outside the range of its field. -/
  | outOfRange (n : Int) (wanted : String)
  /-- A required member is absent. -/
  | missingField (name : String)
  /-- An array ends before a required element. -/
  | missingElement (index : Nat) (record : String) (size : Nat)
  /-- An array goes on behind the last element. -/
  | extraElements (length : Nat)
  /-- A text that should be a point in time. -/
  | badTime (problem : TimeProblem)
  /-- A field is given twice. -/
  | repeatedField (name : String)
  /-- The text is no JSON. -/
  | broken (defect : Json.Defect)
deriving DecidableEq, Repr

namespace Found

/-- What was found, in words. -/
def describe : Found → String
  | null => "null"
  | boolean b => "boolean `" ++ (if b then "true" else "false") ++ "`"
  | integer n => "integer `" ++ toString n ++ "`"
  | float x => "floating point `" ++ x.text ++ "`"
  | text s => "string " ++ Text.quoted s
  | sequence => "sequence"
  | map => "map"

end Found

/-- The problem in words. -/
def TimeProblem.message : TimeProblem → String
  | .tooShort => "premature end of input"
  | .tooLong => "trailing input"
  | .invalid => "input contains invalid characters"
  | .outOfRange => "input is out of range"
  | .impossible => "no possible date and time matching input"

/-- The error in words. -/
def DecodeError.message : DecodeError → String
  | .wrongType found wanted => "invalid type: " ++ found.describe ++ ", expected " ++ wanted
  | .outOfRange n wanted => "invalid value: integer `" ++ toString n ++ "`, expected " ++ wanted
  | .missingField name => "missing field `" ++ name ++ "`"
  | .missingElement index record size =>
    "invalid length " ++ toString index ++ ", expected struct " ++ record ++ " with " ++
      toString size ++ " elements"
  | .extraElements length =>
    "invalid length " ++ toString length ++ ", expected fewer elements in array"
  | .badTime problem => problem.message
  | .repeatedField name => "duplicate field `" ++ name ++ "`"
  | .broken .cutShort => "the text ends too early"
  | .broken .garbled => "the text is no JSON"

/-- The outcome of reading a value. -/
abbrev Decoded (α : Type) := Except DecodeError α

/-! ## 2. Plain values -/

namespace Json.Written

/-- The error for a value of another type. -/
def mismatch (wanted : String) (w : Written) : Decoded α :=
  match w with
  | null => wrong .null
  | bool b => wrong (.boolean b)
  | num (.int n) => wrong (.integer n)
  | num (.float x) => wrong (.float x)
  | str s => wrong (.text s)
  | arr _ _ => wrong .sequence
  | obj _ _ => wrong .map
  | flawed f | word f => .error (.broken f.read)
where
  /-- The error for what was found. -/
  wrong (found : Found) : Decoded α := .error (.wrongType found wanted)

/-- Gives a result, if a text can be passed over. -/
def passing (a : α) (w : Written) : Decoded α :=
  match w.passOver with
  | none => .ok a
  | some d => .error (.broken d)

/-- Gives a result, if the container that it comes from ends well. -/
def ending (e : Option Flaw) (a : α) : Decoded α := (ended e a).mapError .broken

/-- Reads any value. -/
def decodeJson (w : Written) : Decoded Json := w.toJson.mapError .broken

/-- Reads a text. -/
def decodeText : Written → Decoded String
  | str s => .ok s
  | w => mismatch "a string" w

/-- Reads a truth value. -/
def decodeBool : Written → Decoded Bool
  | bool b => .ok b
  | w => mismatch "a boolean" w

/-- Reads an integer that fits 64 bits with a sign. -/
def decodeInt64 : Written → Decoded Int
  | num (.int n) =>
    if Int64.minValue.toInt ≤ n ∧ n ≤ Int64.maxValue.toInt then .ok n
    else .error (.outOfRange n "i64")
  | w => mismatch "i64" w

/-- Reads a natural number below a bound; `wanted` names the type in errors. -/
def decodeBelow (bound : Nat) (wanted : String) : Written → Decoded Nat
  | num (.int n) =>
    if 0 ≤ n ∧ n < bound then .ok n.toNat else .error (.outOfRange n wanted)
  | w => mismatch wanted w

/-- Reads a natural number that fits 64 bits. -/
def decodeWord (wanted : String) (w : Written) : Decoded UInt64 :=
  (w.decodeBelow UInt64.size wanted).map UInt64.ofNat

/-- Reads an array item by item. -/
def decodeItems (item : Written → Decoded α) : Written → Decoded (List α)
  | arr items e => do ending e (← items.mapM item)
  | w => mismatch "a sequence" w

/-- Reads the name of a member. -/
def decodeName (name : WrittenName) : Decoded String := name.mapError fun f => .broken f.read

/-- Reads the members of an object as a map of texts. -/
def decodeTextMap : Written → Decoded (SortedMap String String)
  | obj members e => do
    let pairs ← members.mapM fun (name, w) => do return (← decodeName name, ← decodeText w)
    ending e (SortedMap.ofList pairs)
  | w => mismatch "a map" w

/-- Reads a value that may be `null`. -/
def decodeOptional (value : Written → Decoded α) : Written → Decoded (Option α)
  | null => .ok none
  | w => some <$> value w

/-- Reads a value that has a default if it is `null`. -/
def decodeOr (default : α) (value : Written → Decoded α) (w : Written) : Decoded α := do
  return (← w.decodeOptional value).getD default

/-- Reads a text that has to be the given one. -/
def decodeExactly (wanted : String) (w : Written) : Decoded Unit := do
  if (← w.decodeText) = wanted then .ok () else mismatch wanted w

/-- Reads one of the given words: as a text, or as the only member of an object, with nothing behind
it. -/
def decodeChoice (words : List String) : Written → Decoded String
  | str s => chosen s
  | obj [(name, w)] e => do
    let s ← chosen (← decodeName name)
    match w with
    | null => ending e s
    | w => mismatch "unit" w
  | obj [] e => do
    let _ ← ending e ()
    mismatch "variant identifier" null
  | word _ => mismatch "variant identifier" null
  | w => mismatch "variant identifier" w
where
  /-- The word, if it is one of those given. -/
  chosen (s : String) : Decoded String :=
    if words.contains s then .ok s else mismatch "variant identifier" (str s)

/-! ## 3. Records -/

/-- Reads a record that must be an object, member by member. -/
def decodeMembers (wanted : String) (start : σ) (field : σ → String → Written → Decoded σ) :
    Written → Decoded σ
  | obj members e => do
    ending e (← members.foldlM (fun s m => do field s (← decodeName m.1) m.2) start)
  | w => mismatch wanted w

end Json.Written

open Json (Written WrittenName)

/-- A record whose fields have a declared order. -/
structure Layout (σ : Type) where
  /-- The record's name, for errors. -/
  name : String
  /-- The fields in declared order and whether each is required. -/
  fields : List (String × Bool)
  /-- Reads one field; a name that is no field is passed over. -/
  field : σ → String → Written → Decoded σ

namespace Layout

variable {σ : Type}

/-- The first required field whose name is not among those given. -/
def missing? (l : Layout σ) (given : List String) : Option String :=
  (l.fields.find? fun f => f.2 && !given.contains f.1).map (·.1)

/-- Reads the fields from an array; an absent element that is required ends the reading. -/
def decodeElements (l : Layout σ) (start : σ) (items : List Written) (e : Option Json.Flaw) :
    Decoded σ := do
  let s ← go start 0 l.fields items
  if l.fields.length < items.length then .error (.extraElements items.length)
  else Written.ending e s
where
  /-- Reads the fields from the given index on. -/
  go (s : σ) (index : Nat) : List (String × Bool) → List Written → Decoded σ
    | [], _ => .ok s
    | (_, required) :: fs, [] => do
      let s ← Written.ending e s
      if required then .error (.missingElement index l.name l.fields.length)
      else go s (index + 1) fs []
    | (name, _) :: fs, w :: ws => do go (← l.field s name w) (index + 1) fs ws

/-- Reads the fields from members; the names given so far stand in `given`. -/
def decodeGiven (l : Layout σ) (s : σ) (given : List String) (e : Option Json.Flaw) :
    List (WrittenName × Written) → Decoded σ
  | [] => do
    let s ← Written.ending e s
    match l.missing? given with
    | some name => .error (.missingField name)
    | none => .ok s
  | (name, w) :: ms => do
    let name ← Written.decodeName name
    if given.contains name && (l.fields.any fun f => f.1 = name) then
      .error (.repeatedField name)
    else l.decodeGiven (← l.field s name w) (name :: given) e ms

/-- Reads the record; absent fields keep the values of `start`. -/
def decode (l : Layout σ) (start : σ) : Written → Decoded σ
  | .obj members e => l.decodeGiven start [] e members
  | .arr items e => l.decodeElements start items e
  | w => w.mismatch ("struct " ++ l.name)

end Layout

end AppWatch
