/-
# JSON values

An object lists its members in ascending order of their names, each name once, so that two values
are equal exactly when they say the same thing.  `Json.object` brings any member list into that
form; of members with one name the last stays.

A number is an integer of the two 64-bit ranges or a double precision number, which is kept as
the shortest decimal that reads back to it.
-/
import AppWatch.Decimal
import AppWatch.SortedMap

namespace AppWatch

/-- A JSON number: an integer, or a double precision number by its shortest decimal. -/
inductive JsonNumber where
  | int (n : Int)
  | float (x : Decimal)
deriving DecidableEq, Repr

/-- A JSON value. -/
inductive Json where
  | null
  | bool (b : Bool)
  | num (n : JsonNumber)
  | str (s : String)
  | arr (items : List Json)
  | obj (members : List (String × Json))
deriving Repr

namespace Json

instance : Inhabited Json := ⟨null⟩

/-! ## 1. Equality -/

mutual

/-- Decides equality of two values. -/
def decEq : (a b : Json) → Decidable (a = b)
  | null, b => match b with
    | null => isTrue rfl
    | bool _ | num _ | str _ | arr _ | obj _ => isFalse (by simp)
  | bool x, b => match b with
    | bool y => decidable_of_iff (x = y) (by simp)
    | null | num _ | str _ | arr _ | obj _ => isFalse (by simp)
  | num x, b => match b with
    | num y => decidable_of_iff (x = y) (by simp)
    | null | bool _ | str _ | arr _ | obj _ => isFalse (by simp)
  | str x, b => match b with
    | str y => decidable_of_iff (x = y) (by simp)
    | null | bool _ | num _ | arr _ | obj _ => isFalse (by simp)
  | arr xs, b => match b with
    | arr ys => @decidable_of_iff _ (xs = ys) (by simp) (decEqItems xs ys)
    | null | bool _ | num _ | str _ | obj _ => isFalse (by simp)
  | obj xs, b => match b with
    | obj ys => @decidable_of_iff _ (xs = ys) (by simp) (decEqMembers xs ys)
    | null | bool _ | num _ | str _ | arr _ => isFalse (by simp)

/-- Decides equality of two lists of values. -/
def decEqItems : (a b : List Json) → Decidable (a = b)
  | [], [] => isTrue rfl
  | [], _ :: _ | _ :: _, [] => isFalse (by simp)
  | x :: xs, y :: ys => match decEq x y, decEqItems xs ys with
    | isTrue h, isTrue t => isTrue (by rw [h, t])
    | isFalse h, _ => isFalse (by simp [h])
    | _, isFalse t => isFalse (by simp [t])

/-- Decides equality of two member lists. -/
def decEqMembers : (a b : List (String × Json)) → Decidable (a = b)
  | [], [] => isTrue rfl
  | [], _ :: _ | _ :: _, [] => isFalse (by simp)
  | (n, x) :: xs, (m, y) :: ys => match decEq x y, decEqMembers xs ys with
    | isTrue h, isTrue t => decidable_of_iff (n = m) (by simp [h, t])
    | isFalse h, _ => isFalse (by simp [h])
    | _, isFalse t => isFalse (by simp [t])

end

instance : DecidableEq Json := decEq

/-! ## 2. Building and looking up -/

/-- An integer value. -/
def ofInt (n : Int) : Json := num (.int n)

/-- A natural number as a value. -/
def ofNat (n : Nat) : Json := ofInt n

/-- The object with the given members; of members with one name the last stays. -/
def object (members : List (String × Json)) : Json := obj (SortedMap.ofList members).entries

/-- An array of texts. -/
def texts (l : List String) : Json := arr (l.map str)

/-- A string map as an object. -/
def textMap (m : SortedMap String String) : Json := obj (m.mapValues str).entries

/-- A value that may be missing, `null` when it is. -/
def orNull : Option Json → Json
  | none => null
  | some j => j

/-- The member of an object with the given name. -/
def member? (name : String) : Json → Option Json
  | obj members => Entries.lookup name members
  | _ => none

/-- The member with the given name, where an absent one reads as `null`. -/
def memberD (name : String) (j : Json) : Json := (j.member? name).getD null

end Json

end AppWatch
