/-
# JSON as it is written

A text says more than the value it denotes: its members stand in some order, a name may stand
twice, an escape or a numeral may denote nothing, and the text may end or go wrong at any place.
`Written` keeps all of this, so that a reader that wants only some members can do with a text
that as a whole denotes no value.

Such a reader either reads a part or passes over it.  Passing over asks for less: an escape needs
only its digits, a numeral only its form, and depth does not count.  A `Flaw` says what each of
the two comes to at its place.  Every value has a written form (`Json.written`), and that form has
no flaws (`passOver_written`).
-/
import AppWatch.Json

namespace AppWatch

namespace Json

/-- How a text fails to be JSON. -/
inductive Defect where
  /-- It ends too early. -/
  | cutShort
  /-- Something stands there that may not. -/
  | garbled
deriving DecidableEq, Repr

/-- A place at which a text fails: what reading it comes to, and what passing over it comes to,
unless that goes well. -/
structure Flaw where
  read : Defect
  skipped : Option Defect
deriving DecidableEq, Repr

/-- A flaw that is one and the same to whoever reads and to whoever passes over. -/
def Defect.flaw (d : Defect) : Flaw := ⟨d, some d⟩

/-- The name of a member as it is written. -/
abbrev WrittenName := Except Flaw String

/-- A JSON text as it is written.  A container with an ending that is flawed was not closed. -/
inductive Written where
  | null
  | bool (b : Bool)
  | num (n : JsonNumber)
  | str (s : String)
  /-- A word that is neither a literal nor a numeral of a number. -/
  | word (f : Flaw)
  /-- Any other text that has a flaw, or no text at all. -/
  | flawed (f : Flaw)
  | arr (items : List Written) (ending : Option Flaw)
  | obj (members : List (Except Flaw String × Written)) (ending : Option Flaw)

namespace Written

/-! ## 1. Passing over -/

mutual

/-- What passing over a text comes to, unless it goes well. -/
def passOver : Written → Option Defect
  | null | bool _ | num _ | str _ => none
  | word f | flawed f => f.skipped
  | arr items ending => passOverItems ending items
  | obj members ending => passOverMembers ending members

/-- What passing over the items of an array and its ending comes to. -/
def passOverItems (ending : Option Flaw) : List Written → Option Defect
  | [] => ending.bind (·.skipped)
  | w :: ws => (passOver w).or (passOverItems ending ws)

/-- What passing over the members of an object and its ending comes to. -/
def passOverMembers (ending : Option Flaw) : List (Except Flaw String × Written) → Option Defect
  | [] => ending.bind (·.skipped)
  | (.error f, w) :: ms => (f.skipped.or (passOver w)).or (passOverMembers ending ms)
  | (.ok _, w) :: ms => (passOver w).or (passOverMembers ending ms)

end

/-! ## 2. The value -/

/-- A value, if the container that holds it ends well. -/
def ended (ending : Option Flaw) (a : α) : Except Defect α :=
  match ending with
  | none => .ok a
  | some f => .error f.read

mutual

/-- The value that a text denotes; of members with one name the last stays. -/
def toJson : Written → Except Defect Json
  | null => .ok .null
  | bool b => .ok (.bool b)
  | num n => .ok (.num n)
  | str s => .ok (.str s)
  | word f | flawed f => .error f.read
  | arr items ending => do ended ending (.arr (← toJsonItems items))
  | obj members ending => do ended ending (Json.object (← toJsonMembers members))

/-- The values that the items of an array denote. -/
def toJsonItems : List Written → Except Defect (List Json)
  | [] => .ok []
  | w :: ws => do
    let j ← toJson w
    return j :: (← toJsonItems ws)

/-- The members of an object with the values that they denote. -/
def toJsonMembers : List (Except Flaw String × Written) → Except Defect (List (String × Json))
  | [] => .ok []
  | (.error f, _) :: _ => .error f.read
  | (.ok name, w) :: ms => do
    let j ← toJson w
    return (name, j) :: (← toJsonMembers ms)

end

/-! ## 3. Members -/

/-- Whether a member with the given name is there. -/
def hasMember (name : String) : Written → Bool
  | obj members _ => members.any fun m =>
    match m.1 with
    | .ok n => n = name
    | .error _ => false
  | _ => false

end Written

/-! ## 4. The written form of a value -/

mutual

/-- A value as it is written: its members in ascending order of their names. -/
def written : Json → Written
  | null => .null
  | bool b => .bool b
  | num n => .num n
  | str s => .str s
  | arr items => .arr (writtenItems items) none
  | obj members => .obj (writtenMembers members) none

/-- The items of an array as they are written. -/
def writtenItems : List Json → List Written
  | [] => []
  | j :: js => written j :: writtenItems js

/-- The members of an object as they are written. -/
def writtenMembers : List (String × Json) → List (Except Flaw String × Written)
  | [] => []
  | (name, j) :: ms => (.ok name, written j) :: writtenMembers ms

end

mutual

theorem passOver_written : (j : Json) → j.written.passOver = none
  | null | bool _ | num _ | str _ => rfl
  | arr items => passOver_writtenItems items
  | obj members => passOver_writtenMembers members

theorem passOver_writtenItems :
    (js : List Json) → Written.passOverItems none (writtenItems js) = none
  | [] => rfl
  | j :: js => by
    simp [writtenItems, Written.passOverItems, passOver_written j, passOver_writtenItems js]

theorem passOver_writtenMembers :
    (ms : List (String × Json)) → Written.passOverMembers none (writtenMembers ms) = none
  | [] => rfl
  | (_, j) :: ms => by
    simp [writtenMembers, Written.passOverMembers, passOver_written j,
      passOver_writtenMembers ms]

end

end Json

end AppWatch
