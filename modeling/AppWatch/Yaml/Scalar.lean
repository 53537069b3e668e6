/-
# YAML scalars

How the text of a scalar is read: plain, between quotes, or as a block of lines behind a mark.
Line breaks inside the first two, and inside a folded block, are folded: a single one stands for a
blank, and of several the first is dropped.
-/
import AppWatch.Text.Number
import AppWatch.Yaml.Token

namespace AppWatch

namespace Yaml

/-- The blanks and line breaks inside a scalar since its last visible character. -/
structure Gap where
  /-- The blanks before the first line break, in reverse. -/
  spaces : List Char := []
  /-- Whether there was a line break. -/
  broken : Bool := false
  /-- The first line break; none if it was escaped. -/
  firstBreak : List Char := []
  /-- The further line breaks, in reverse. -/
  breaks : List Char := []

namespace Gap

/-- Whether there is no gap. -/
def isEmpty (g : Gap) : Bool := g.spaces.isEmpty && !g.broken

/-- Takes in a blank. -/
def space (g : Gap) (c : Char) : Gap := if g.broken then g else { g with spaces := c :: g.spaces }

/-- Takes in a line break. -/
def lineBreak (g : Gap) (c : Char) : Gap :=
  if g.broken then { g with breaks := c :: g.breaks }
  else { broken := true, firstBreak := [c] }

/-- The gap of an escaped line break. -/
def escaped : Gap := { broken := true }

/-- What the gap stands for: its blanks, or its line breaks folded, in reverse. -/
def folded (g : Gap) : List Char :=
  if !g.broken then g.spaces
  else if g.firstBreak = ['\n'] then if g.breaks.isEmpty then [' '] else g.breaks
  else g.breaks ++ g.firstBreak

end Gap

/-- The text of a scalar. -/
structure ScalarText where
  text : List Char
  /-- Whether line breaks were read behind it. -/
  broken : Bool := false

/-- A scalar that was read. -/
abbrev ScannedScalar := Scanned ScalarText

/-! ## 1. Plain scalars -/

/-- Whether a plain scalar ends before a character that is no blank. -/
def endsPlain (inFlow : Bool) (indent : Nat) (g : Gap) (p : Position) (c : Char)
    (cs : List Char) : Bool :=
  (p.column = 0 && (documentMark? (c :: cs)).isSome) ||
    (!g.isEmpty && (c = '#' || (!inFlow && p.column < indent))) ||
    (c = ':' && atWordEnd cs) ||
    (inFlow && (c = ',' || c = '[' || c = ']' || c = '\x7b' || c = '\x7d'))

/-- Whether a colon inside brackets stands where none may stand in a plain scalar. -/
def isStrayColon (inFlow : Bool) (c : Char) (cs : List Char) : Bool :=
  inFlow && c = ':' &&
    cs.head?.any fun d =>
      d = ',' || d = '?' || d = '[' || d = ']' || d = '\x7b' || d = '\x7d'

/-- Reads a plain scalar; `done` is what was read of it, in reverse.  Outside brackets its lines
stand at least in column `indent`. -/
def scanPlain (inFlow : Bool) (indent : Nat) (done : List Char) (g : Gap) (p : Position) :
    List Char → Option ScannedScalar
  | [] => some ⟨⟨done.reverse, g.broken⟩, p, []⟩
  | c :: cs =>
    if isBreak c then scanPlain inFlow indent done (g.lineBreak c) p.nextLine cs
    else if isSpace c then
      if c = '\t' && g.broken && p.column < indent then none
      else scanPlain inFlow indent done (g.space c) p.next cs
    else if endsPlain inFlow indent g p c cs && !isStrayColon inFlow c cs then
      some ⟨⟨done.reverse, g.broken⟩, p, c :: cs⟩
    else if isStrayColon inFlow c cs then none
    else scanPlain inFlow indent (c :: (g.folded ++ done)) {} p.next cs

/-! ## 2. Quoted scalars -/

/-- Reads a scalar behind its opening single quote. -/
def scanSingleQuoted (done : List Char) (g : Gap) (p : Position) :
    List Char → Option ScannedScalar
  | [] => none
  | '\'' :: '\'' :: cs => scanSingleQuoted ('\'' :: (g.folded ++ done)) {} p.next.next cs
  | c :: cs =>
    if isBreak c then scanSingleQuoted done (g.lineBreak c) p.nextLine cs
    else if isSpace c then scanSingleQuoted done (g.space c) p.next cs
    else if p.column = 0 && (documentMark? (c :: cs)).isSome then none
    else if c = '\'' then some ⟨⟨(g.folded ++ done).reverse, false⟩, p.next, cs⟩
    else scanSingleQuoted (c :: (g.folded ++ done)) {} p.next cs

/-- Where the reader of a double quoted scalar is: in its text, behind a backslash, or in an
escape by code with that many digits left. -/
inductive QuotedMode where
  | text
  | escape
  | code (left value : Nat)

/-- The character of a one-letter escape. -/
def escapedChar? : Char → Option Char
  | '0' => some '\x00'
  | 'a' => some '\x07'
  | 'b' => some '\x08'
  | 't' | '\t' => some '\t'
  | 'n' => some '\n'
  | 'v' => some '\x0b'
  | 'f' => some '\x0c'
  | 'r' => some '\r'
  | 'e' => some '\x1b'
  | ' ' => some ' '
  | '"' => some '"'
  | '/' => some '/'
  | '\\' => some '\\'
  | 'N' => some (Char.ofNat 0x85)
  | '_' => some (Char.ofNat 0xA0)
  | 'L' => some (Char.ofNat 0x2028)
  | 'P' => some (Char.ofNat 0x2029)
  | _ => none

/-- How many digits an escape by code has. -/
def codeLength? : Char → Option Nat
  | 'x' => some 2
  | 'u' => some 4
  | 'U' => some 8
  | _ => none

/-- The character with a code. -/
def charOfCode? (n : Nat) : Option Char := if n.isValidChar then some (Char.ofNat n) else none

/-- Reads a scalar behind its opening double quote. -/
def scanDoubleQuoted (mode : QuotedMode) (done : List Char) (g : Gap) (p : Position) :
    List Char → Option ScannedScalar
  | [] => none
  | c :: cs =>
    match mode with
    | .text =>
      if isBreak c then scanDoubleQuoted .text done (g.lineBreak c) p.nextLine cs
      else if isSpace c then scanDoubleQuoted .text done (g.space c) p.next cs
      else if p.column = 0 && (documentMark? (c :: cs)).isSome then none
      else if c = '"' then some ⟨⟨(g.folded ++ done).reverse, false⟩, p.next, cs⟩
      else if c = '\\' then scanDoubleQuoted .escape (g.folded ++ done) {} p.next cs
      else scanDoubleQuoted .text (c :: (g.folded ++ done)) {} p.next cs
    | .escape =>
      if isBreak c then scanDoubleQuoted .text done .escaped p.nextLine cs
      else match escapedChar? c, codeLength? c with
        | some e, _ => scanDoubleQuoted .text (e :: done) {} p.next cs
        | none, some n => scanDoubleQuoted (.code n 0) done {} p.next cs
        | none, none => none
    | .code left value =>
      match Text.hexDigit? c with
      | none => none
      | some d =>
        let value := value * 16 + d
        if left ≤ 1 then
          match charOfCode? value with
          | none => none
          | some e => scanDoubleQuoted .text (e :: done) {} p.next cs
        else scanDoubleQuoted (.code (left - 1) value) done {} p.next cs

/-! ## 3. Blocks of lines -/

/-- What becomes of the line breaks at the end of a block. -/
inductive Chomping where
  /-- The last one is kept. -/
  | clip
  | strip
  | keep
deriving DecidableEq

/-- The header of a block: how it ends, and how far its lines are indented, if that is given. -/
structure BlockHeader where
  chomping : Chomping := .clip
  indentation : Option Nat := none

namespace BlockHeader

/-- Reads the sign for the end of the block. -/
def chomp? (h : BlockHeader) : Char → Option BlockHeader
  | '+' => some { h with chomping := .keep }
  | '-' => some { h with chomping := .strip }
  | _ => none

/-- Reads the marks of a header in either order; an indentation of zero is none. -/
def marks? : List Char → Option (BlockHeader × List Char)
  | [] => some ({}, [])
  | c :: cs =>
    match chomp? {} c with
    | some h =>
      match cs with
      | d :: ds =>
        if d = '0' then none
        else if d.isDigit then some ({ h with indentation := Text.hexDigit? d }, ds)
        else some (h, cs)
      | [] => some (h, [])
    | none =>
      if c = '0' then none
      else if c.isDigit then
        let h : BlockHeader := { indentation := Text.hexDigit? c }
        match cs with
        | d :: ds =>
          match h.chomp? d with
          | some h => some (h, ds)
          | none => some (h, cs)
        | [] => some (h, [])
      else some ({}, c :: cs)

/-- Reads a header and the rest of its line, which holds blanks and a comment at most. -/
def read? (cs : List Char) : Option (BlockHeader × List Char) := do
  let (h, cs) ← marks? cs
  let cs := cs.dropWhile isSpace
  let cs := if cs.head? = some '#' then cs.dropWhile (!isBreak ·) else cs
  if atLineEnd cs then some (h, cs.drop 1) else none

end BlockHeader

/-- The blank lines in front of a block. -/
structure Margin where
  /-- The widest of their indentations and that of the first line with a text. -/
  widest : Nat := 0
  /-- Their line breaks, in reverse. -/
  breaks : List Char := []

/-- Reads the blank lines in front of a block, whose lines start at a column if it is known; a tab
may not stand in front of that column. -/
def scanMargin (column : Option Nat) (m : Margin) (p : Position) :
    List Char → Option (Scanned Margin)
  | [] => some ⟨{ m with widest := max m.widest p.column }, p, []⟩
  | c :: cs =>
    let isLeft := column.all (p.column < ·)
    if c = ' ' && isLeft then scanMargin column m p.next cs
    else
      let m := { m with widest := max m.widest p.column }
      if c = '\t' && isLeft then none
      else if isBreak c then scanMargin column { m with breaks := c :: m.breaks } p.nextLine cs
      else some ⟨m, p, c :: cs⟩

/-- What was read of the lines of a block, everything in reverse. -/
structure BlockText where
  text : List Char := []
  /-- The break behind the last line with a text. -/
  lastBreak : List Char := []
  /-- The breaks of the blank lines behind it. -/
  breaks : List Char := []
  /-- Whether that line started with a blank. -/
  isIndented : Bool := false

namespace BlockText

/-- Starts a line with a character. -/
def startLine (b : BlockText) (folded : Bool) (c : Char) : BlockText :=
  let joined :=
    if folded && b.lastBreak = ['\n'] && !b.isIndented && !isSpace c then
      if b.breaks.isEmpty then ' ' :: b.text else b.text
    else b.lastBreak ++ b.text
  { text := c :: (b.breaks ++ joined), isIndented := isSpace c }

/-- The text of the block. -/
def finish (b : BlockText) (c : Chomping) : List Char :=
  let text := if c = .strip then b.text else b.lastBreak ++ b.text
  (if c = .keep then b.breaks ++ text else text).reverse

end BlockText

/-- Reads the lines of a block that start at a column. -/
def scanLines (folded : Bool) (column : Nat) (inLine : Bool) (b : BlockText) (p : Position) :
    List Char → Option (Scanned BlockText)
  | [] => some ⟨b, p, []⟩
  | c :: cs =>
    if inLine then
      if isBreak c then scanLines folded column false { b with lastBreak := [c] } p.nextLine cs
      else scanLines folded column true { b with text := c :: b.text } p.next cs
    else if c = ' ' && p.column < column then scanLines folded column false b p.next cs
    else if c = '\t' && p.column < column then none
    else if isBreak c then
      scanLines folded column false { b with breaks := c :: b.breaks } p.nextLine cs
    else if p.column = column then
      scanLines folded column true (b.startLine folded c) p.next cs
    else some ⟨b, p, c :: cs⟩

/-- Reads a block behind its mark.  `indent` is the column of the collection around it, if there is
one; the lines of the block stand further right. -/
def scanBlock (folded : Bool) (indent : Option Nat) (p : Position) (cs : List Char) :
    Option ScannedScalar := do
  let (h, rest) ← BlockHeader.read? cs
  let p := if rest.isEmpty && !cs.any isBreak then p.skip cs.length
    else { p.nextLine with index := p.index + (cs.length - rest.length) }
  let least := (indent.map (· + 1)).getD 0
  let given := h.indentation.map (indent.getD 0 + ·)
  let m ← scanMargin given {} p rest
  let column := given.getD (max (max m.value.widest least) 1)
  let r ← scanLines folded column false { breaks := m.value.breaks } m.position m.rest
  return ⟨⟨r.value.finish h.chomping, true⟩, r.position, r.rest⟩

end Yaml

end AppWatch
