/-
# Labelled blocks

Certificates and keys are kept in text files as labelled blocks: a line that begins the block with
its label, lines that stand for bytes, and a line that ends it with the same label.  Headers may
stand in front of the bytes, with an empty line behind them.  What stands between blocks does not
count.
-/
import AppWatch.Text.Base64
import AppWatch.Text.NameList

namespace AppWatch

namespace Pem

/-- A labelled block. -/
structure Block where
  label : String
  content : List UInt8
deriving DecidableEq, Repr

/-! ## 1. Cutting -/

/-- What stands in front of a mark and behind it.  `found` is how much of the mark the bytes before
those given have matched; where the next byte does not match, the search starts anew behind it. -/
def cut? (mark : List UInt8) (found : Nat) (before : List UInt8) :
    List UInt8 → Option (List UInt8 × List UInt8)
  | [] => none
  | b :: rest =>
    if mark[found]? = some b then
      if found + 1 = mark.length then some ((before.drop found).reverse, rest)
      else cut? mark (found + 1) (b :: before) rest
    else cut? mark 0 (b :: before) rest

/-- Cuts at the first place where a mark is found. -/
def cutAt? (mark : String) (bytes : List UInt8) : Option (List UInt8 × List UInt8) :=
  cut? mark.toUTF8.toList 0 [] bytes

/-- The bytes without blanks and line ends in front. -/
def skipBlanks (bytes : List UInt8) : List UInt8 :=
  bytes.dropWhile fun b => b = 0x20 || b = 0x09 || b = 0x0A || b = 0x0D

/-- A block as it is cut out of a file. -/
structure Cutout where
  opening : List UInt8
  body : List UInt8
  closing : List UInt8

/-- The first block and what stands behind it. -/
def cutout? (bytes : List UInt8) : Option (Cutout × List UInt8) := do
  let (_, rest) ← cutAt? "-----BEGIN " bytes
  let (opening, rest) ← cutAt? "-----" rest
  let (body, rest) ← cutAt? "-----END " (skipBlanks rest)
  let (closing, rest) ← cutAt? "-----" rest
  return (⟨opening, body, closing⟩, skipBlanks rest)

/-- All blocks; one that does not end is none.  `count` bounds how many are looked for. -/
def cutouts : (count : Nat) → List UInt8 → List Cutout
  | 0, _ => []
  | count + 1, bytes =>
    match cutout? bytes with
    | none => []
    | some (block, rest) => block :: cutouts count rest

/-! ## 2. Reading -/

/-- Bytes as text. -/
def text? (bytes : List UInt8) : Option String := String.fromUTF8? ⟨bytes.toArray⟩

/-- A line without blanks at its end. -/
def trimEnd (cs : List Char) : List Char := (cs.reverse.dropWhile Text.isBlank).reverse

/-- The lines of a text; the last one is none if it is empty. -/
def lines (s : String) : List (List Char) :=
  let ls := Text.segments '\n' s.toList
  if ls.getLast? = some [] then ls.dropLast else ls

/-- The headers of a block and its data. -/
def parts (body : List UInt8) : List UInt8 × List UInt8 :=
  ((cutAt? "\n\n" body).or (cutAt? "\r\n\r\n" body)).getD ([], body)

/-- Reads a block: both labels are one, each header has a colon, and the data stand for bytes. -/
def Cutout.block? (c : Cutout) : Option Block := do
  let label ← text? c.opening
  let closing ← text? c.closing
  let (headers, data) := parts c.body
  let content ← Text.ofBase64? ((lines (← text? data)).flatMap trimEnd)
  let headers ← text? headers
  if label ≠ "" && label = closing && (lines headers).all (·.contains ':') then
    some ⟨label, content⟩
  else none

/-- The blocks of a file, unless one of them cannot be read. -/
def blocks? (bytes : List UInt8) : Option (List Block) :=
  (cutouts bytes.length bytes).mapM Cutout.block?

end Pem

end AppWatch
