/-
# Comma separated lists of names

A list of names is written in one line with commas between the names; blanks around a name and
empty segments do not count.  `Text.nameList` reads it in order and with repetitions,
`Text.nameSet` as a set.  Blanks are the characters of Unicode's `White_Space` property.
-/
import AppWatch.SortedMap

namespace AppWatch

namespace Text

/-- The characters of Unicode's `White_Space` property. -/
def isBlank (c : Char) : Bool :=
  let n := c.toNat
  (9 ≤ n && n ≤ 13) || n == 0x20 || n == 0x85 || n == 0xa0 || n == 0x1680 ||
    (0x2000 ≤ n && n ≤ 0x200a) || n == 0x2028 || n == 0x2029 || n == 0x202f || n == 0x205f ||
    n == 0x3000

/-- Cuts at every separator; there is one segment more than separators. -/
def segments (separator : Char) : List Char → List (List Char)
  | [] => [[]]
  | c :: cs =>
    if c = separator then [] :: segments separator cs
    else match segments separator cs with
      | [] => [[c]]
      | s :: ss => (c :: s) :: ss

/-- Drops blanks at both ends. -/
def trim (s : List Char) : List Char :=
  ((s.dropWhile isBlank).reverse.dropWhile isBlank).reverse

/-- The names of a list, in order and with repetitions. -/
def nameList (s : String) : List String :=
  (((segments ',' s.toList).map trim).filter fun t => !t.isEmpty).map String.ofList

/-- The set of the names of a list. -/
def nameSet (s : String) : SortedSet String :=
  (segments ',' s.toList).foldl
    (fun names segment =>
      match trim segment with
      | [] => names
      | name => names.add (String.ofList name))
    SortedMap.empty

end Text

end AppWatch
