/-
# Reading JSON text

The reader goes through the text one character at a time and keeps two things: the lexeme it is
in (`Lexeme`) and the containers that are still open (`Builder`).  Both steps are plain functions,
so reading is a fold over the characters and ends by structural recursion.  What comes out is the
text as it is written (`Document`), whatever the text is; where it fails, it stops there.

A number and a literal are read as the longest run of characters that are neither blank nor
punctuation, and judged when the run ends.  A container inside 127 others cannot be read, only
passed over.
-/
import AppWatch.Json.Numeral
import AppWatch.Json.Written
import AppWatch.Text.Number

namespace AppWatch

namespace Json

/-- A text as it is written, and whether anything stands behind it. -/
structure Document where
  root : Written
  isTrailed : Bool := false

/-! ## 1. Open containers -/

/-- A container that is still open; what is complete in it stands in reverse. -/
inductive Frame where
  | items (done : List Written)
  | members (done : List (WrittenName × Written))
  | member (done : List (WrittenName × Written)) (name : WrittenName)

/-- What may come next. -/
inductive Awaited where
  | value
  | valueOrClose
  | nameOrClose
  | name
  | colon
  | separator
deriving DecidableEq

/-- The state between two lexemes: open containers, innermost first, and what may come next.
When no container is open and a separator is awaited, the text is complete. -/
structure Builder where
  frames : List Frame := []
  awaited : Awaited := .value
  result : Option Written := none

/-- A punctuation mark. -/
inductive Mark where
  | openArray
  | closeArray
  | openObject
  | closeObject
  | comma
  | colon

/-- How many containers may be open around a value. -/
def maxDepth : Nat := 127

namespace Builder

/-- Puts a complete value into the innermost open container. -/
def complete (b : Builder) (w : Written) : Builder :=
  match b.frames with
  | [] => ⟨[], .separator, some w⟩
  | .items done :: fs => ⟨.items (w :: done) :: fs, .separator, none⟩
  | .member done name :: fs => ⟨.members ((name, w) :: done) :: fs, .separator, none⟩
  | .members _ :: _ => b

/-- Whether fewer containers are open than may be. -/
def isShallow (fs : List Frame) : Bool := (fs.drop (maxDepth - 1)).isEmpty

/-- Puts a container that is closed into the one around it, unless there are too many of them. -/
def enclose (fs : List Frame) (w : Written) : Builder :=
  complete ⟨fs, .value, none⟩ (if isShallow fs then w else .flawed ⟨.garbled, w.passOver⟩)

/-- Whether a value may come next. -/
def takesValue (b : Builder) : Bool := b.awaited = .value ∨ b.awaited = .valueOrClose

/-- Whether the name of a member may come next. -/
def takesName (b : Builder) : Bool := b.awaited = .name ∨ b.awaited = .nameOrClose

/-- Takes in the name of a member. -/
def named (b : Builder) (name : WrittenName) : Builder :=
  match b.frames with
  | .members done :: fs => ⟨.member done name :: fs, .colon, none⟩
  | _ => b

/-- Takes in a text, which is a name where one may come next. -/
def text (b : Builder) (s : WrittenName) : Builder :=
  if b.takesName then b.named s
  else b.complete (match s with
    | .ok s => .str s
    | .error f => .flawed f)

/-- Takes in a mark; `none` where it may not stand there. -/
def mark (b : Builder) : Mark → Option Builder
  | .openArray =>
    if b.takesValue then some ⟨.items [] :: b.frames, .valueOrClose, none⟩ else none
  | .openObject =>
    if b.takesValue then some ⟨.members [] :: b.frames, .nameOrClose, none⟩ else none
  | .colon => if b.awaited = .colon then some { b with awaited := .value } else none
  | .comma =>
    match b.awaited, b.frames with
    | .separator, .items _ :: _ => some { b with awaited := .value }
    | .separator, .members _ :: _ => some { b with awaited := .name }
    | _, _ => none
  | .closeArray =>
    match b.awaited, b.frames with
    | .valueOrClose, .items done :: fs | .separator, .items done :: fs =>
      some (enclose fs (.arr done.reverse none))
    | _, _ => none
  | .closeObject =>
    match b.awaited, b.frames with
    | .nameOrClose, .members done :: fs | .separator, .members done :: fs =>
      some (enclose fs (.obj done.reverse none))
    | _, _ => none

/-- Closes the open containers around the text in which a flaw stands. -/
def closeAround (f : Flaw) (w : Written) : List Frame → Written
  | [] => w
  | .items done :: fs => closeAround f (.arr (w :: done).reverse (some f)) fs
  | .member done name :: fs => closeAround f (.obj ((name, w) :: done).reverse (some f)) fs
  | .members done :: fs => closeAround f (.obj done.reverse (some f)) fs

/-- The document that has a flaw where reading stops; `broken` stands for a value there.  Behind a
complete text it is no flaw, but something that trails. -/
def stop (b : Builder) (f : Flaw) (broken : Written := .flawed f) : Document :=
  match b.result, b.awaited, b.frames with
  | some w, _, _ => ⟨w, true⟩
  | none, .valueOrClose, .items done :: fs | none, .separator, .items done :: fs =>
    ⟨closeAround f (.arr done.reverse (some f)) fs, false⟩
  | none, .nameOrClose, .members done :: fs | none, .separator, .members done :: fs =>
    ⟨closeAround f (.obj done.reverse (some f)) fs, false⟩
  | none, .name, .members done :: fs =>
    ⟨closeAround f broken (.member done (.error f) :: fs), false⟩
  | none, _, fs => ⟨closeAround f broken fs, false⟩

end Builder

/-! ## 2. Lexemes -/

/-- What was read of a text between quotes, in reverse; none once it holds an escape that denotes
nothing. -/
abbrev QuotedSoFar := Option (List Char)

/-- The lexeme the reader is in; what was read of it stands in reverse. -/
inductive Lexeme where
  | between
  | word (done : List Char)
  | string (done : QuotedSoFar)
  | escape (done : QuotedSoFar)
  /-- An escape by code: the digits read so far, as bytes that still are to come and as a number,
  which is none once a character was no digit; in front of it, half of a pair may wait. -/
  | hex (done : QuotedSoFar) (left : Nat) (code : Option Nat) (high : Option Nat)
  | pairSlash (done : QuotedSoFar) (high : Nat)
  | pairLetter (done : QuotedSoFar) (high : Nat)

/-- The blanks between lexemes. -/
def isBlank (c : Char) : Bool := c = ' ' ∨ c = '\n' ∨ c = '\r' ∨ c = '\t'

/-- The punctuation mark that a character is. -/
def mark? : Char → Option Mark
  | '[' => some .openArray
  | ']' => some .closeArray
  | '\x7b' => some .openObject
  | '\x7d' => some .closeObject
  | ',' => some .comma
  | ':' => some .colon
  | _ => none

/-- The character of a one-letter escape. -/
def simpleEscape? : Char → Option Char
  | '"' => some '"'
  | '\\' => some '\\'
  | '/' => some '/'
  | 'b' => some '\x08'
  | 'f' => some '\x0c'
  | 'n' => some '\n'
  | 'r' => some '\r'
  | 't' => some '\t'
  | _ => none

/-- The scalar that a word is; a numeral of a number that is too large can only be passed over. -/
def scalar? (word : List Char) : Option Written :=
  if word = "null".toList then some .null
  else if word = "true".toList then some (.bool true)
  else if word = "false".toList then some (.bool false)
  else (Numeral.parts? word).map fun p =>
    match p.value? with
    | some n => .num n
    | none => .word ⟨.garbled, none⟩

/-- The flaw of a word that ends with the text.  The start of a literal is cut short; the start of
a numeral is so only to whoever reads it. -/
def wordFlaw (word : List Char) : Flaw :=
  if word.isPrefixOf "null".toList || word.isPrefixOf "true".toList ||
      word.isPrefixOf "false".toList then Defect.cutShort.flaw
  else if (Numeral.parts? (word ++ ['0'])).isSome then ⟨.cutShort, some .garbled⟩
  else Defect.garbled.flaw

/-- The reader between two characters. -/
structure Reading where
  lexeme : Lexeme := .between
  builder : Builder := {}

namespace Reading

/-- What a step comes to: the reader behind the character, or the document if it stops there. -/
abbrev Step := Except Document Reading

/-- Stops where something stands that may not. -/
def stop (b : Builder) : Step := .error (b.stop Defect.garbled.flaw)

/-- Hands a word that has ended to the builder. -/
def finishWord (b : Builder) (done : List Char) : Except Document Builder :=
  match scalar? done.reverse with
  | some w => .ok (b.complete w)
  | none => .error (b.stop Defect.garbled.flaw (.word Defect.garbled.flaw))

/-- Reads a character that stands outside a word and a string. -/
def outside (b : Builder) (c : Char) : Step :=
  if isBlank c then .ok ⟨.between, b⟩
  else if c = '"' then
    if b.takesValue || b.takesName then .ok ⟨.string (some []), b⟩ else stop b
  else match mark? c with
    | some m =>
      match b.mark m with
      | some b => .ok ⟨.between, b⟩
      | none => stop b
    | none => if b.takesValue then .ok ⟨.word [c], b⟩ else stop b

/-- What a text is once its quote has closed. -/
def closed (done : QuotedSoFar) : WrittenName :=
  match done with
  | some cs => .ok (String.ofList cs.reverse)
  | none => .error ⟨.garbled, none⟩

/-- Reads a character of a text between quotes. -/
def inside (b : Builder) (done : QuotedSoFar) (c : Char) : Step :=
  if c = '"' then .ok ⟨.between, b.text (closed done)⟩
  else if c = '\\' then .ok ⟨.escape done, b⟩
  else if c.toNat < 32 then stop b
  else .ok ⟨.string (done.map (c :: ·)), b⟩

/-- Reads the character behind a backslash. -/
def escaped (b : Builder) (done : QuotedSoFar) (c : Char) : Step :=
  if c = 'u' then .ok ⟨.hex done 4 (some 0) none, b⟩
  else match simpleEscape? c with
    | some e => .ok ⟨.string (done.map (e :: ·)), b⟩
    | none => stop b

/-- Ends an escape by code: half of a pair needs its partner. -/
def finishHex (done : QuotedSoFar) (code : Nat) : Option Nat → Lexeme
  | none =>
    if done.isSome ∧ 0xD800 ≤ code ∧ code ≤ 0xDBFF then .pairSlash done code
    else if 0xD800 ≤ code ∧ code ≤ 0xDFFF then .string none
    else .string (done.map (Char.ofNat code :: ·))
  | some high =>
    if 0xDC00 ≤ code ∧ code ≤ 0xDFFF then
      .string (done.map (Char.ofNat (0x10000 + (high - 0xD800) * 0x400 + (code - 0xDC00)) :: ·))
    else .string none

/-- Reads a character of an escape by code, which takes four bytes. -/
def hexDigit (b : Builder) (done : QuotedSoFar) (left : Nat) (code high : Option Nat) (c : Char) :
    Step :=
  let code := do return (← code) * 16 + (← Text.hexDigit? c)
  if c.utf8Size < left then .ok ⟨.hex done (left - c.utf8Size) code high, b⟩
  else match code with
    | some code => .ok ⟨finishHex done code high, b⟩
    | none => stop b

/-- Reads one character. -/
def step (r : Reading) (c : Char) : Step :=
  let b := r.builder
  match r.lexeme with
  | .between => outside b c
  | .word done =>
    if isBlank c ∨ c = '"' ∨ (mark? c).isSome then do outside (← finishWord b done) c
    else .ok ⟨.word (c :: done), b⟩
  | .string done => inside b done c
  | .escape done => escaped b done c
  | .hex done left code high => hexDigit b done left code high c
  | .pairSlash done high => if c = '\\' then .ok ⟨.pairLetter done high, b⟩ else inside b none c
  | .pairLetter done high =>
    if c = 'u' then .ok ⟨.hex done 4 (some 0) (some high), b⟩ else escaped b none c

/-- The flaw of a text that ends between quotes. -/
def unclosed (done : QuotedSoFar) : Flaw :=
  ⟨if done.isSome then .cutShort else .garbled, some .cutShort⟩

/-- The document that ends with a text between quotes. -/
def stopInside (b : Builder) (done : QuotedSoFar) : Document :=
  if b.takesName then (b.named (.error (unclosed done))).stop (unclosed done)
  else b.stop (unclosed done)

/-- The document that ends where the text does. -/
def finish (r : Reading) : Document :=
  let b := r.builder
  match r.lexeme with
  | .between =>
    match b.result with
    | some w => ⟨w, false⟩
    | none => b.stop Defect.cutShort.flaw
  | .word done =>
    match scalar? done.reverse with
    | some w =>
      match (b.complete w).result with
      | some w => ⟨w, false⟩
      | none => (b.complete w).stop Defect.cutShort.flaw
    | none => b.stop (wordFlaw done.reverse) (.word (wordFlaw done.reverse))
  | .string done | .escape done | .hex done _ _ _ => stopInside b done
  | .pairSlash done _ | .pairLetter done _ => stopInside b done

end Reading

/-! ## 3. Texts -/

/-- A text as it is written. -/
def Document.ofText (s : String) : Document :=
  match s.toList.foldlM Reading.step {} with
  | .ok r => r.finish
  | .error d => d

/-- The value that a text denotes, `none` where it is no JSON. -/
def read? (s : String) : Option Json :=
  let d := Document.ofText s
  if d.isTrailed then none else d.root.toJson.toOption

end Json

end AppWatch
