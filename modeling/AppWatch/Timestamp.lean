/-
# Points in time

Object metadata carries points in time as RFC 3339 text.  They are kept in whole seconds of
universal time and written back in that form, with `Z` for the offset.  Reading is lenient in the
ways the format's common readers are: blanks around the parts, parts of one digit, a blank instead
of `T`, years with a sign, and `UTC` for the offset.
-/
import AppWatch.Decode
import AppWatch.Text.NameList

namespace AppWatch

/-- A second of universal time; `leap` marks the second inserted after it. -/
structure Timestamp where
  /-- Seconds since the start of 1970. -/
  seconds : Int
  leap : Bool := false
deriving DecidableEq, Repr

namespace Timestamp

/-! ## 1. Calendar -/

/-- Days from the start of 1970 to a day of the Gregorian calendar. -/
def daysOfDate (year : Int) (month day : Nat) : Int :=
  -- years counted from March, so that the leap day ends a year
  let y := if month ≤ 2 then year - 1 else year
  let era := y.fdiv 400
  let yearOfEra := (y - era * 400).toNat
  let monthFromMarch := (month + 9) % 12
  let dayOfYear := (153 * monthFromMarch + 2) / 5 + (day - 1)
  let dayOfEra := yearOfEra * 365 + yearOfEra / 4 - yearOfEra / 100 + dayOfYear
  era * 146097 + dayOfEra - 719468

/-- The year, month and day of a day counted from the start of 1970. -/
def dateOfDays (days : Int) : Int × Nat × Nat :=
  let z := days + 719468
  let era := z.fdiv 146097
  let dayOfEra := (z - era * 146097).toNat
  let yearOfEra := (dayOfEra - dayOfEra / 1460 + dayOfEra / 36524 - dayOfEra / 146096) / 365
  let dayOfYear := dayOfEra - (365 * yearOfEra + yearOfEra / 4 - yearOfEra / 100)
  let m := (5 * dayOfYear + 2) / 153
  let day := dayOfYear - (153 * m + 2) / 5 + 1
  let month := if m < 10 then m + 3 else m - 9
  let year := (yearOfEra : Int) + era * 400
  (if month ≤ 2 then year + 1 else year, month, day)

/-- Whether a year has a leap day. -/
def isLeapYear (year : Int) : Bool := year % 4 = 0 ∧ (year % 100 ≠ 0 ∨ year % 400 = 0)

/-- How many days a month has. -/
def daysInMonth (year : Int) (month : Nat) : Nat :=
  if month = 2 then (if isLeapYear year then 29 else 28)
  else if month = 4 ∨ month = 6 ∨ month = 9 ∨ month = 11 then 30 else 31

/-! ## 2. Text -/

/-- A number with leading zeros up to the given width. -/
def padded (width n : Nat) : String :=
  let ds := Nat.toDigits 10 n
  String.ofList (List.replicate (width - ds.length) '0' ++ ds)

/-- A year of four digits; years outside of these carry a sign. -/
def yearText (year : Int) : String :=
  if 0 ≤ year ∧ year ≤ 9999 then padded 4 year.toNat
  else (if year < 0 then "-" else "+") ++ padded 4 year.natAbs

/-- The point in time in universal time, whole seconds. -/
def text (t : Timestamp) : String :=
  let days := t.seconds.fdiv 86400
  let s := (t.seconds - days * 86400).toNat
  let (year, month, day) := dateOfDays days
  yearText year ++ "-" ++ padded 2 month ++ "-" ++ padded 2 day ++ "T" ++
    padded 2 (s / 3600) ++ ":" ++ padded 2 (s / 60 % 60) ++ ":" ++
    padded 2 (s % 60 + if t.leap then 1 else 0) ++ "Z"

/-! ## 3. Reading -/

/-- A reader of a part: its value and the rest of the text. -/
abbrev Part (α : Type) := List Char → Except TimeProblem (α × List Char)

/-- Drops leading blanks. -/
def skipBlanks (cs : List Char) : List Char := cs.dropWhile Text.isBlank

/-- The value of a decimal digit. -/
def digitValue (c : Char) : Nat := c.toNat - '0'.toNat

/-- One digit or more, at most `width` of them where a width is given. -/
def digits (width : Option Nat) : Part Nat := fun cs =>
  let run := cs.takeWhile Char.isDigit
  let ds := match width with
    | some w => run.take w
    | none => run
  match ds, cs with
  | [], [] => .error .tooShort
  | [], _ :: _ => .error .invalid
  | _, _ => .ok (ds.foldl (fun n c => n * 10 + digitValue c) 0, cs.drop ds.length)

/-- A number of up to two digits within bounds, behind blanks. -/
def numberWithin (low high : Nat) : Part Nat := fun cs => do
  let (n, rest) ← digits (some 2) (skipBlanks cs)
  if low ≤ n ∧ n ≤ high then return (n, rest) else .error .outOfRange

/-- The given mark, behind blanks. -/
def mark (c : Char) : Part Unit := fun cs =>
  match skipBlanks cs with
  | [] => .error .tooShort
  | d :: rest => if d = c then .ok ((), rest) else .error .invalid

/-- A year as it is written: four digits at most, or any number of them behind a sign. -/
def signedYear : Part Int := fun cs =>
  match skipBlanks cs with
  | '-' :: rest => (digits none rest).map fun (n, rest) => (-(n : Int), rest)
  | '+' :: rest => (digits none rest).map fun (n, rest) => ((n : Int), rest)
  | rest => (digits (some 4) rest).map fun (n, rest) => ((n : Int), rest)

/-- A year that fits 32 bits. -/
def year : Part Int := fun cs => do
  let (y, rest) ← signedYear cs
  if Int32.minValue.toInt ≤ y ∧ y ≤ Int32.maxValue.toInt then return (y, rest)
  else .error .outOfRange

/-- What stands between date and time. -/
def dateEnd : Part Unit := fun
  | [] => .error .tooShort
  | c :: rest => if c = 'T' ∨ c = 't' ∨ c = ' ' then .ok ((), rest) else .error .invalid

/-- The fraction of a second, which is dropped. -/
def fraction : Part Unit := fun
  | '.' :: rest => (digits none rest).map fun (_, rest) => ((), rest)
  | rest => .ok ((), rest)

/-- Two digits exactly; a single character is too short for them only if it takes one byte. -/
def exactTwo : Part Nat := fun
  | a :: b :: rest =>
    if a.isDigit ∧ b.isDigit then .ok (digitValue a * 10 + digitValue b, rest)
    else .error .invalid
  | [a] => .error (if a.utf8Size < 2 then .tooShort else .invalid)
  | [] => .error .tooShort

/-- The offset from universal time in seconds. -/
def offset : Part Int := fun cs =>
  match cs with
  | [] => .error .tooShort
  | c :: rest =>
    if (cs.take 3).map Char.toUpper = ['U', 'T', 'C'] then .ok (0, cs.drop 3)
    else if c = 'Z' ∨ c = 'z' then .ok (0, rest)
    else if c = '+' ∨ c = '-' ∨ c = '\u2212' then do
      let (hours, rest) ← exactTwo rest
      let (minutes, rest) ← exactTwo (rest.dropWhile fun c => c = ':' ∨ Text.isBlank c)
      if 60 ≤ minutes then .error .outOfRange
      else
        let s : Int := hours * 3600 + minutes * 60
        return (if c = '+' then s else -s, rest)
    else .error .invalid

/-- The first second that a point in time may stand at. -/
def first : Int := daysOfDate (-262143) 1 1 * 86400

/-- The last second that a point in time may stand at. -/
def last : Int := daysOfDate 262142 12 31 * 86400 + 86399

/-- The point in time that a clock shows at an offset from universal time. -/
def ofClock (date : Int × Nat × Nat) (time : Nat × Nat × Nat) (offset : Int) :
    Except TimeProblem Timestamp :=
  let (y, mo, d) := date
  let (h, mi, s) := time
  let shown := daysOfDate y mo d * 86400 + (h * 3600 + mi * 60 + min s 59 : Nat)
  let seconds := shown - offset
  if daysInMonth y mo < d ∨ shown < first ∨ last < shown then .error .outOfRange
  else if 86400 ≤ offset.natAbs then .error .outOfRange
  else if seconds < first ∨ last < seconds then .error .impossible
  else .ok ⟨seconds, s = 60⟩

/-- Reads a point in time.  Each number is held to its bounds as soon as it is read; whether there
is such a day is asked once the whole text has been read. -/
def read (s : String) : Except TimeProblem Timestamp := do
  let (y, cs) ← year s.toList
  let (_, cs) ← mark '-' cs
  let (mo, cs) ← numberWithin 1 12 cs
  let (_, cs) ← mark '-' cs
  let (d, cs) ← numberWithin 1 31 cs
  let (_, cs) ← dateEnd cs
  let (h, cs) ← numberWithin 0 23 cs
  let (_, cs) ← mark ':' cs
  let (mi, cs) ← numberWithin 0 59 cs
  let (_, cs) ← mark ':' cs
  let (sec, cs) ← numberWithin 0 60 cs
  let (_, cs) ← fraction cs
  let (off, cs) ← offset (skipBlanks cs)
  if (skipBlanks cs).isEmpty then ofClock (y, mo, d) (h, mi, sec) off else .error .tooLong

/-- Reads a point in time from a JSON text. -/
def ofWritten : Json.Written → Decoded Timestamp
  | .str s => (read s).mapError .badTime
  | w => w.mismatch "an RFC 3339 formatted date and time string"

end Timestamp

end AppWatch
