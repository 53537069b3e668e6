/-
# YAML values

A YAML value is a tree of scalars, sequences and mappings.  A scalar is kept as its text, with how
it was written; every part may have a tag.

What a scalar is depends on what is wanted.  Here a reader says what it wants: a text is any scalar
as it stands, a truth value or a number has to be written plainly, or as a block of lines under the
tag for it, and nothing at all stands for an empty sequence and for an empty mapping.  Tags do not
matter otherwise.
-/
import AppWatch.Text.Number
import AppWatch.Yaml.Token

namespace AppWatch

/-- A YAML value. -/
inductive Yaml where
  | scalar (text : String) (style : Yaml.Style) (tag : Option String)
  | sequence (items : List Yaml) (tag : Option String)
  | mapping (entries : List (Yaml × Yaml)) (tag : Option String)

namespace Yaml

/-! ## 1. Tags -/

/-- What the tags of the common schema start with. -/
def schema : String := "tag:yaml.org,2002:"

/-- The tag of the common schema with a name. -/
def schemaTag (name : String) : String := schema ++ name

/-! ## 2. What plain scalars denote -/

/-- Whether a plain scalar is one of the words for nothing. -/
def isNullWord (s : String) : Bool := s = "~" || s = "null" || s = "Null" || s = "NULL"

/-- The truth value that a plain scalar denotes. -/
def truth? (s : String) : Option Bool :=
  if s = "true" || s = "True" || s = "TRUE" then some true
  else if s = "false" || s = "False" || s = "FALSE" then some false
  else none

/-- Drops a sign in front. -/
def withoutSign : List Char → List Char
  | '+' :: cs | '-' :: cs | cs => cs

/-- Whether a run of digits behind a sign has more than one and starts with a zero. -/
def isPadded (cs : List Char) : Bool :=
  let ds := withoutSign cs
  ds.head? = some '0' && ds.length != 1 && ds.all Char.isDigit

/-- The natural number that digits denote: to the base sixteen, eight or two behind a mark, and
decimal without padding otherwise. -/
def magnitude? : List Char → Option Nat
  | '0' :: 'x' :: cs => Text.natural? 16 cs
  | '0' :: 'o' :: cs => Text.natural? 8 cs
  | '0' :: 'b' :: cs => Text.natural? 2 cs
  | cs => if isPadded cs then none else Text.natural? 10 cs

/-- The integer that a plain scalar denotes. -/
def integer? (s : String) : Option Int :=
  match s.toList with
  | '-' :: cs => (magnitude? cs).map fun n => -(n : Int)
  | cs => (magnitude? (Text.withoutPlus cs)).map fun n => (n : Int)

/-! ## 3. Reading values -/

/-- The text of a scalar that may be read as a value of a type: one that is written plainly, or as a
block of lines under the tag for the type. -/
def plainText? (name : String) : Yaml → Option String
  | scalar s .plain _ => some s
  | scalar s .literal (some tag) => if tag = schemaTag name then some s else none
  | _ => none

/-- A text: any scalar, as it stands. -/
def text? : Yaml → Option String
  | scalar s _ _ => some s
  | _ => none

/-- A truth value. -/
def bool? (y : Yaml) : Option Bool := (y.plainText? "bool").bind truth?

/-- A natural number that fits 64 bits. -/
def word? (y : Yaml) : Option UInt64 := do
  let cs := (← y.plainText? "int").toList
  return UInt64.ofNat (← (magnitude? (Text.withoutPlus cs)).filter (· < UInt64.size))

/-- The items of a sequence. -/
def items? : Yaml → Option (List Yaml)
  | sequence items _ => some items
  | scalar "" .plain _ => some []
  | _ => none

/-- The entries of a mapping. -/
def entries? : Yaml → Option (List (Yaml × Yaml))
  | mapping entries _ => some entries
  | scalar "" .plain _ => some []
  | _ => none

/-- The entries of a mapping whose keys are texts. -/
def members? (y : Yaml) : Option (List (String × Yaml)) := do
  (← y.entries?).mapM fun (key, value) => do return (← key.text?, value)

end Yaml

end AppWatch
