/-
# YAML records

A record is a value with named fields: a mapping from their names, of which none is repeated and
those that are not known are passed over, or a sequence of all fields in their order.

Here a scalar is only what it denotes, so that a number is no text.  Tags do not count.  A field
that denotes nothing counts as absent, and nothing at all stands for an empty sequence and for an
empty mapping.
-/
import AppWatch.Yaml.Value

namespace AppWatch

namespace Yaml

namespace Value

/-! ## 1. Values by their kind -/

/-- A text. -/
def text? (v : Value) : Option String :=
  match v.untag with
  | text s => some s
  | _ => none

/-- A truth value. -/
def bool? (v : Value) : Option Bool :=
  match v.untag with
  | bool b => some b
  | _ => none

/-- A sequence. -/
def items? (v : Value) : Option (List Value) :=
  match v.untag with
  | sequence items => some items
  | null => some []
  | _ => none

/-- A mapping. -/
def entries? (v : Value) : Option (List (Value × Value)) :=
  match v.untag with
  | mapping entries => some entries
  | null => some []
  | _ => none

/-- A list of values that are read alike. -/
def list? (item : Value → Option α) (v : Value) : Option (List α) := v.items?.bind (·.mapM item)

/-- A mapping between texts. -/
def texts? (v : Value) : Option (List (String × String)) := do
  (← v.entries?).mapM fun (key, value) => do return (← key.text?, ← value.text?)

mutual

/-- Whether a value has no tags but on the keys of mappings, which are texts. -/
def isPlain : Value → Bool
  | null | bool _ | num _ | text _ => true
  | sequence items => itemsArePlain items
  | mapping entries => entriesArePlain entries
  | tagged _ _ => false

/-- Whether items have no tags but on keys. -/
def itemsArePlain : List Value → Bool
  | [] => true
  | v :: vs => isPlain v && itemsArePlain vs

/-- Whether entries have texts as keys and no tags elsewhere. -/
def entriesArePlain : List (Value × Value) → Bool
  | [] => true
  | (k, v) :: es => k.text?.isSome && isPlain v && entriesArePlain es

end

end Value

/-! ## 2. Records -/

/-- A field of a record. -/
structure RecordField where
  name : String
  /-- Whether a sequence may end in front of the field. -/
  mayEnd : Bool := false

/-- The fields of a record with their names, as far as they are given. -/
abbrev Fields := List (String × Value)

/-- The fields of a sequence. -/
def Fields.ofItems? : List RecordField → List Value → Option Fields
  | [], [] => some []
  | [], _ :: _ => none
  | f :: fs, [] => if f.mayEnd then ofItems? fs [] else none
  | f :: fs, v :: vs => (ofItems? fs vs).map ((f.name, v) :: ·)

/-- The fields of a mapping. -/
def Fields.ofEntries? (names : List String) (entries : List (Value × Value)) : Option Fields := do
  let fields ← entries.mapM fun (key, value) => do return (← key.text?, value)
  let known := fields.filter fun f => names.contains f.1
  if (known.map (·.1)).Nodup then some known else none

/-- Reads a record with the given fields. -/
def Value.record? (fields : List RecordField) (v : Value) : Option Fields :=
  match v.untag with
  | .sequence items => Fields.ofItems? fields items
  | .mapping entries => Fields.ofEntries? (fields.map (·.name)) entries
  | _ => none

namespace Fields

/-- A field that has to be given. -/
def required? (f : Fields) (name : String) (value : Value → Option α) : Option α :=
  (f.lookup name).bind value

/-- A field that may be absent or denote nothing. -/
def optional? (f : Fields) (name : String) (value : Value → Option α) : Option (Option α) :=
  match f.lookup name with
  | none | some .null => some none
  | some v => (value v).map some

/-- A field that has a value of its own where it is absent. -/
def withDefault? (f : Fields) (name : String) (absent : α) (value : Value → Option α) : Option α :=
  match f.lookup name with
  | none => some absent
  | some v => value v

end Fields

end Yaml

end AppWatch
