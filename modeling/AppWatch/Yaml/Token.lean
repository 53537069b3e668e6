/-
# YAML tokens

The tokens that a text is cut into, places in the text, and the characters that matter to both.
Every break of one line is written as a line feed before anything is read, so that one character
ends a line.
-/

namespace AppWatch

namespace Yaml

/-- How a scalar is written. -/
inductive Style where
  /-- Without any mark. -/
  | plain
  /-- Line by line behind a vertical bar. -/
  | literal
  /-- Between quotes, or folded. -/
  | quoted
deriving DecidableEq, Repr

/-- A token of a document. -/
inductive Token where
  | version (major minor : Nat)
  /-- A short form for the start of tags. -/
  | tagHandle (handle start : String)
  | documentStart
  | documentEnd
  | blockSequence
  | blockMapping
  | blockEnd
  | flowSequence
  | flowSequenceEnd
  | flowMapping
  | flowMappingEnd
  | blockEntry
  | flowEntry
  | key
  | value
  | reference (name : String)
  | anchor (name : String)
  /-- A tag: the short form of its start, if that is not empty, and the rest. -/
  | tag (handle rest : String)
  | scalar (text : String) (style : Style)
deriving DecidableEq, Repr

/-- A place in the text. -/
structure Position where
  index : Nat := 0
  line : Nat := 0
  column : Nat := 0

namespace Position

/-- The place behind characters of one line. -/
def skip (p : Position) (n : Nat) : Position := ⟨p.index + n, p.line, p.column + n⟩

/-- The place behind a character. -/
def next (p : Position) : Position := p.skip 1

/-- The place behind a line break. -/
def nextLine (p : Position) : Position := ⟨p.index + 1, p.line + 1, 0⟩

end Position

/-! ## Characters -/

/-- Whether a character may stand in a document. -/
def isAllowed (c : Char) : Bool :=
  let n := c.toNat
  n = 0x09 || n = 0x0A || n = 0x0D || (0x20 ≤ n && n ≤ 0x7E) || n = 0x85 ||
    (0xA0 ≤ n && n ≤ 0xFFFD) || 0x10000 ≤ n

/-- Writes every line break of one line as a line feed; the separators of lines and paragraphs
stay what they are. -/
def unifyBreaks : List Char → List Char
  | '\r' :: '\n' :: cs => '\n' :: unifyBreaks cs
  | c :: cs => (if c = '\r' || c.toNat = 0x85 then '\n' else c) :: unifyBreaks cs
  | [] => []

/-- Whether a character breaks the line. -/
def isBreak (c : Char) : Bool := c = '\n' || c.toNat = 0x2028 || c.toNat = 0x2029

/-- Whether a character is a blank within a line. -/
def isSpace (c : Char) : Bool := c = ' ' || c = '\t'

/-- Whether a character may stand in a name. -/
def isNameChar (c : Char) : Bool := c.isAlphanum || c = '_' || c = '-'

/-- Whether the line ends here. -/
def atLineEnd : List Char → Bool
  | [] => true
  | c :: _ => isBreak c

/-- Whether a word ends here. -/
def atWordEnd : List Char → Bool
  | [] => true
  | c :: _ => isSpace c || isBreak c

/-- The mark between documents that stands here. -/
def documentMark? : List Char → Option Token
  | '-' :: '-' :: '-' :: cs => if atWordEnd cs then some .documentStart else none
  | '.' :: '.' :: '.' :: cs => if atWordEnd cs then some .documentEnd else none
  | _ => none

/-- A part of a text that was read, and where reading goes on. -/
structure Scanned (α : Type) where
  value : α
  position : Position
  rest : List Char

end Yaml

end AppWatch
