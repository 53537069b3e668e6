/-
# From YAML text to tokens

The scanner cuts a text into tokens.  Outside brackets the structure of a document is told by
columns: the scanner keeps the columns of the open block collections and opens and closes them as
lines start further right or left.

A scalar or a bracket may turn out to be a key only when a colon follows, so the scanner keeps,
for each bracket level, the place of the last token that may be one (`Candidate`).  The mark of
the key, and the start of the mapping it opens, are put in front of it afterwards.  A key stands
on one line, within 1024 characters of its colon.
-/
import AppWatch.Yaml.Property
import AppWatch.Yaml.Scalar

namespace AppWatch

namespace Yaml

/-! ## 1. Blanks between tokens -/

/-- Skips blanks, line breaks and comments, and tells whether a key may start behind them.  Outside
brackets a line break allows a key, and a tab may not stand where a key may. -/
def skipBlanks (inFlow inComment keyAllowed : Bool) (p : Position) : List Char → Scanned Bool
  | [] => ⟨keyAllowed, p, []⟩
  | c :: cs =>
    if isBreak c then skipBlanks inFlow false (keyAllowed || !inFlow) p.nextLine cs
    else if inComment || c = '#' then skipBlanks inFlow true keyAllowed p.next cs
    else if c = ' ' || (c = '\t' && (inFlow || !keyAllowed)) then
      skipBlanks inFlow false keyAllowed p.next cs
    else ⟨keyAllowed, p, c :: cs⟩

/-- Skips a byte order mark at the start of the text. -/
def skipMark (p : Position) : List Char → Position × List Char
  | '\ufeff' :: cs => if p.index = 0 then (p.next, cs) else (p, '\ufeff' :: cs)
  | cs => (p, cs)

/-! ## 2. The scanner -/

/-- A token that may turn out to be a key. -/
structure Candidate where
  /-- How many tokens stand before it. -/
  place : Nat
  position : Position
  /-- Whether it has to be a key, because it starts where the entries of a block collection do. -/
  required : Bool

/-- The scanner between two tokens. -/
structure Scanner where
  rest : List Char
  position : Position := {}
  tokens : Array Token := #[]
  /-- The columns of the open block collections, innermost first. -/
  indents : List Nat := []
  /-- The candidate of the current bracket level. -/
  candidate : Option Candidate := none
  /-- The candidates of the enclosing levels, innermost first. -/
  enclosing : List (Option Candidate) := []
  /-- Whether a key may start here. -/
  keyAllowed : Bool := true

namespace Scanner

/-- Whether the scanner is inside brackets. -/
def inFlow (s : Scanner) : Bool := !s.enclosing.isEmpty

/-- Adds a token. -/
def push (s : Scanner) (t : Token) : Scanner := { s with tokens := s.tokens.push t }

/-- Puts a token at a place among those already there. -/
def insert (s : Scanner) (place : Nat) (t : Token) : Scanner :=
  { s with tokens := s.tokens.insertIdxIfInBounds place t }

/-- Goes past characters of one line. -/
def advance (s : Scanner) (n : Nat) : Scanner :=
  { s with rest := s.rest.drop n, position := s.position.skip n }

/-- Goes on where a part of the line that was read ends. -/
def resume (s : Scanner) (rest : List Char) : Scanner := s.advance (s.rest.length - rest.length)

/-- Opens a block collection at a column, unless one is open there or the scanner is inside
brackets. -/
def openBlock (s : Scanner) (column place : Nat) (t : Token) : Scanner :=
  if s.inFlow || s.indents.head?.any (column ≤ ·) then s
  else { s.insert place t with indents := column :: s.indents }

/-- Closes the block collections in the list. -/
def closeBlocks (s : Scanner) (closed : List Nat) : Scanner :=
  { s with
    tokens := closed.foldl (fun ts _ => ts.push .blockEnd) s.tokens
    indents := s.indents.drop closed.length }

/-- Closes the block collections that stand further right than a column. -/
def closeDeeper (s : Scanner) (column : Nat) : Scanner :=
  if s.inFlow then s else s.closeBlocks (s.indents.takeWhile (column < ·))

/-- Closes all block collections. -/
def closeAll (s : Scanner) : Scanner := if s.inFlow then s else s.closeBlocks s.indents

/-- Gives the candidate up; one that has to be a key is an error. -/
def dropCandidate (s : Scanner) : Option Scanner :=
  if s.candidate.any (·.required) then none else some { s with candidate := none }

/-- Makes the next token the candidate, where a key may start. -/
def saveCandidate (s : Scanner) : Option Scanner :=
  if s.keyAllowed then
    let required := !s.inFlow && s.indents.head? = some s.position.column
    s.dropCandidate.map fun s =>
      { s with candidate := some ⟨s.tokens.size, s.position, required⟩ }
  else some s

/-- Whether a candidate is near enough to be the key of a colon here. -/
def isNear (s : Scanner) (c : Candidate) : Bool :=
  c.position.line = s.position.line && s.position.index ≤ c.position.index + 1024

/-- The candidate, unless it is too far away; one that has to be a key may not be. -/
def refresh (s : Scanner) : Option Candidate → Option (Option Candidate)
  | none => some none
  | some c => if s.isNear c then some (some c) else if c.required then none else some none

/-- Gives up the candidates of all levels that are too far away. -/
def dropFar (s : Scanner) : Option Scanner := do
  return { s with
    candidate := ← s.refresh s.candidate, enclosing := ← s.enclosing.mapM s.refresh }

/-! ### Tokens -/

/-- A mark between documents. -/
def documentMark (s : Scanner) (t : Token) : Option Scanner :=
  s.closeAll.dropCandidate.map fun s => ({ s with keyAllowed := false }.advance 3).push t

/-- An opening bracket. -/
def openFlow (s : Scanner) (t : Token) : Option Scanner :=
  s.saveCandidate.map fun s =>
    ({ s with enclosing := s.candidate :: s.enclosing, candidate := none, keyAllowed := true }
      |>.advance 1).push t

/-- A closing bracket. -/
def closeFlow (s : Scanner) (t : Token) : Option Scanner :=
  s.dropCandidate.map fun s =>
    let s := match s.enclosing with
      | [] => s
      | c :: cs => { s with candidate := c, enclosing := cs }
    ({ s with keyAllowed := false }.advance 1).push t

/-- A comma inside brackets. -/
def flowEntry (s : Scanner) : Option Scanner :=
  s.dropCandidate.map fun s => ({ s with keyAllowed := true }.advance 1).push .flowEntry

/-- The dash before an item of a block sequence. -/
def blockEntry (s : Scanner) : Option Scanner :=
  if !s.inFlow && !s.keyAllowed then none
  else
    (s.openBlock s.position.column s.tokens.size .blockSequence).dropCandidate.map fun s =>
      ({ s with keyAllowed := true }.advance 1).push .blockEntry

/-- The question mark before a key. -/
def explicitKey (s : Scanner) : Option Scanner :=
  if !s.inFlow && !s.keyAllowed then none
  else
    (s.openBlock s.position.column s.tokens.size .blockMapping).dropCandidate.map fun s =>
      ({ s with keyAllowed := !s.inFlow }.advance 1).push .key

/-- A colon with no key before it. -/
def valueAlone (s : Scanner) : Option Scanner :=
  if !s.inFlow && !s.keyAllowed then none
  else
    let s := s.openBlock s.position.column s.tokens.size .blockMapping
    some (({ s with keyAllowed := !s.inFlow }.advance 1).push .value)

/-- The colon before a value. -/
def value (s : Scanner) : Option Scanner :=
  match s.candidate with
  | none => s.valueAlone
  | some c =>
    let s := (s.insert c.place .key).openBlock c.position.column c.place .blockMapping
    some (({ s with candidate := none, keyAllowed := false }.advance 1).push .value)

/-- A scalar that was read. -/
def scalar (s : Scanner) (style : Style) (r : ScannedScalar) : Scanner :=
  { s with rest := r.rest, position := r.position, keyAllowed := r.value.broken }.push
    (.scalar (String.ofList r.value.text) style)

/-- A scalar that may be a key, read by one of the functions above. -/
def wordScalar (s : Scanner) (style : Style) (scanned : Option ScannedScalar) :
    Option Scanner := do
  return (← s.saveCandidate).scalar style (← scanned)

/-- A block of lines behind its mark; the text starts behind that. -/
def blockScalar (s : Scanner) (folded : Bool) (cs : List Char) : Option Scanner := do
  let s ← s.dropCandidate
  return s.scalar (if folded then .quoted else .literal)
    (← scanBlock folded s.indents.head? s.position.next cs)

/-- An anchor, an alias or a tag. -/
def property (s : Scanner) (read : Option (Token × List Char)) : Option Scanner := do
  let s ← s.saveCandidate
  let (t, rest) ← read
  return ({ s with keyAllowed := false }.resume rest).push t

/-- Goes past the line break that stands here, if there is one. -/
def skipBreak (s : Scanner) : Scanner :=
  if s.rest.isEmpty then s
  else { s with rest := s.rest.tail, position := s.position.nextLine }

/-- A directive with its line; the text starts behind the percent sign. -/
def directive (s : Scanner) (cs : List Char) : Option Scanner := do
  let s ← s.closeAll.dropCandidate
  let (t, rest) ← directive? cs
  return ({ s with keyAllowed := false }.resume rest).skipBreak.push t

/-- Whether a plain scalar may start with a character that is no punctuation mark of its own. -/
def startsPlain (s : Scanner) (c : Char) (cs : List Char) : Bool :=
  !("\t-?:,[]\x7b\x7d#&*!|>'\"%@\x60".toList.contains c) ||
    (c = '-' && !cs.head?.any isSpace) ||
    (!s.inFlow && (c = '?' || c = ':') && !atWordEnd cs)

/-- The column from which on the lines of a plain scalar stand outside brackets. -/
def plainIndent (s : Scanner) : Nat := (s.indents.head?.map (· + 1)).getD 0

/-- Reads the token that starts with the given character. -/
def token (s : Scanner) (c : Char) (cs : List Char) : Option Scanner :=
  let p := s.position
  match documentMark? (c :: cs), p.column with
  | some t, 0 => s.documentMark t
  | _, _ =>
    if c = '%' && p.column = 0 then s.directive cs
    else if c = '[' then s.openFlow .flowSequence
    else if c = '\x7b' then s.openFlow .flowMapping
    else if c = ']' then s.closeFlow .flowSequenceEnd
    else if c = '\x7d' then s.closeFlow .flowMappingEnd
    else if c = ',' then s.flowEntry
    else if c = '-' && atWordEnd cs then s.blockEntry
    else if c = '?' && (s.inFlow || atWordEnd cs) then s.explicitKey
    else if c = ':' && (s.inFlow || atWordEnd cs) then s.value
    else if c = '*' then s.property ((name? cs).map fun (n, cs) => (.reference n, cs))
    else if c = '&' then s.property ((name? cs).map fun (n, cs) => (.anchor n, cs))
    else if c = '!' then s.property (tag? s.inFlow (c :: cs))
    else if c = '|' && !s.inFlow then s.blockScalar false cs
    else if c = '>' && !s.inFlow then s.blockScalar true cs
    else if c = '\'' then s.wordScalar .quoted (scanSingleQuoted [] {} p.next cs)
    else if c = '"' then s.wordScalar .quoted (scanDoubleQuoted .text [] {} p.next cs)
    else if s.startsPlain c cs then
      s.wordScalar .plain (scanPlain s.inFlow s.plainIndent [] {} p (c :: cs))
    else none

/-- The tokens, once the text has ended. -/
def finish (s : Scanner) : Option (List Token) :=
  s.closeAll.dropCandidate.map fun s => s.tokens.toList

/-- Goes to the next token: past blanks and comments, candidates that are too far away, and the
block collections that end in front of it. -/
def approach (s : Scanner) : Option Scanner := do
  let (position, rest) := skipMark s.position s.rest
  let skipped := skipBlanks s.inFlow false s.keyAllowed position rest
  let s ← { s with
    rest := skipped.rest, position := skipped.position, keyAllowed := skipped.value }.dropFar
  return s.closeDeeper s.position.column

/-- Reads all tokens; each takes at least one character, so the number of characters bounds the
number of steps. -/
def run : Nat → Scanner → Option (List Token)
  | 0, _ => none
  | n + 1, s => do
    let s ← s.approach
    match s.rest with
    | [] => s.finish
    | c :: cs => (s.token c cs).bind (run n)

end Scanner

/-- The tokens of a text. -/
def tokens? (s : String) : Option (List Token) :=
  let cs := s.toList
  if cs.all isAllowed then
    let cs := unifyBreaks cs
    Scanner.run (cs.length + 1) { rest := cs }
  else none

end Yaml

end AppWatch
