/-
# Anchors, tags and directives

An anchor names a node, and an alias stands for the node of its name.  A tag says what a node is;
most tags are written short, with a handle for their start, and a directive in front of a document
may declare further handles.
-/
import AppWatch.Text.Number
import AppWatch.Yaml.Token

namespace AppWatch

namespace Yaml

/-! ## 1. Anchors and aliases -/

/-- Whether a character may stand behind a name; the end of a word may, too. -/
def endsName (c : Char) : Bool := "?:,]\x7d%@\x60".toList.contains c

/-- Reads a name behind its mark, and what follows it. -/
def name? (cs : List Char) : Option (String × List Char) :=
  let name := cs.takeWhile isNameChar
  let rest := cs.dropWhile isNameChar
  if !name.isEmpty && (atWordEnd rest || rest.head?.any endsName) then
    some (String.ofList name, rest)
  else none

/-! ## 2. Tags -/

/-- The byte that two hexadecimal digits behind a percent sign denote. -/
def encodedByte? : List Char → Option (Nat × List Char)
  | '%' :: a :: b :: cs => do return ((← Text.hexDigit? a) * 16 + (← Text.hexDigit? b), cs)
  | _ => none

/-- How many bytes a character has whose first byte is given, and what that byte tells of it. -/
def leadingByte? (n : Nat) : Option (Nat × Nat) :=
  if n < 0x80 then some (1, n)
  else if n / 32 = 6 then some (2, n % 32)
  else if n / 16 = 14 then some (3, n % 16)
  else if n / 8 = 30 then some (4, n % 8)
  else none

/-- Reads the further bytes of a character. -/
def trailingBytes? : (count : Nat) → (code : Nat) → List Char → Option (Nat × List Char)
  | 0, code, cs => some (code, cs)
  | count + 1, code, cs => do
    let (n, cs) ← encodedByte? cs
    if n / 64 = 2 then trailingBytes? count (code * 64 + n % 64) cs else none

/-- Reads a character that is written byte by byte. -/
def encodedChar? (cs : List Char) : Option (Char × List Char) := do
  let (n, cs) ← encodedByte? cs
  let (count, code) ← leadingByte? n
  let (code, cs) ← trailingBytes? (count - 1) code cs
  return (if code.isValidChar then Char.ofNat code else '\ufffd', cs)

/-- Whether a character may stand in a tag; some may so only where the tag is in angle brackets. -/
def isTagChar (bracketed : Bool) (c : Char) : Bool :=
  isNameChar c || ";/?:@&=+$.%!~*'()".toList.contains c || (bracketed && ",[]".toList.contains c)

/-- Reads the characters of a tag; every step takes at least one, so that the number of characters
bounds the number of steps. -/
def tagChars? (bracketed : Bool) : (steps : Nat) → List Char → Option (List Char × List Char)
  | steps + 1, c :: cs =>
    if !isTagChar bracketed c then some ([], c :: cs)
    else do
      let (d, rest) ← if c = '%' then encodedChar? (c :: cs) else some (c, cs)
      let (ds, rest) ← tagChars? bracketed steps rest
      return (d :: ds, rest)
  | _, cs => some ([], cs)

/-- Reads the characters of a tag behind a start that was read already. -/
def tagRest? (bracketed : Bool) (start : List Char) (cs : List Char) :
    Option (String × List Char) := do
  let (ds, rest) ← tagChars? bracketed cs.length cs
  return (String.ofList (start ++ ds), rest)

/-- The same, where at least one character has to follow. -/
def tagText? (bracketed : Bool) (cs : List Char) : Option (String × List Char) :=
  if cs.head?.any (isTagChar bracketed) then tagRest? bracketed [] cs else none

/-- Reads what may be a handle: an exclamation mark, a name and perhaps another mark. -/
def handle? : List Char → Option (List Char × List Char)
  | '!' :: cs =>
    let name := cs.takeWhile isNameChar
    match cs.dropWhile isNameChar with
    | '!' :: rest => some ('!' :: name ++ ['!'], rest)
    | rest => some ('!' :: name, rest)
  | _ => none

/-- Whether what was read as a handle is one that stands for a start of its own. -/
def isLongHandle (handle : List Char) : Bool := handle.length ≠ 1 && handle.getLast? = some '!'

/-- Reads a tag: one in angle brackets, or one with a handle, or one that starts with an exclamation
mark alone.  That mark alone is a tag, too. -/
def tag? (inFlow : Bool) (cs : List Char) : Option (Token × List Char) := do
  let (t, rest) ← match cs with
    | '!' :: '<' :: cs => do
      let (text, rest) ← tagText? true cs
      match rest with
      | '>' :: rest => some (Token.tag "" text, rest)
      | _ => none
    | cs => do
      let (handle, rest) ← handle? cs
      if isLongHandle handle then
        let (text, rest) ← tagText? false rest
        some (Token.tag (String.ofList handle) text, rest)
      else
        let (text, rest) ← tagRest? false handle.tail rest
        some (if text = "" then Token.tag "" "!" else Token.tag "!" text, rest)
  if atWordEnd rest || (inFlow && rest.head? = some ',') then some (t, rest) else none

/-! ## 3. Directives -/

/-- Reads a number of at most nine digits. -/
def versionNumber? (cs : List Char) : Option (Nat × List Char) :=
  let ds := cs.takeWhile Char.isDigit
  if 9 < ds.length then none
  else (Text.natural? 10 ds).map fun n => (n, cs.dropWhile Char.isDigit)

/-- Reads what stands behind the name of a directive. -/
def directiveValue? (name : String) (cs : List Char) : Option (Token × List Char) :=
  let cs := cs.dropWhile isSpace
  match name with
  | "YAML" => do
    let (major, cs) ← versionNumber? cs
    match cs with
    | '.' :: cs =>
      let (minor, cs) ← versionNumber? cs
      return (.version major minor, cs)
    | _ => none
  | "TAG" => do
    let (handle, cs) ← handle? cs
    let isHandle := handle = ['!'] || isLongHandle handle
    if !isHandle || !cs.head?.any isSpace then none
    let (start, cs) ← tagText? true (cs.dropWhile isSpace)
    if atWordEnd cs then return (.tagHandle (String.ofList handle) start, cs) else none
  | _ => none

/-- Reads a directive behind its percent sign, up to the end of the line. -/
def directive? (cs : List Char) : Option (Token × List Char) := do
  let name := cs.takeWhile isNameChar
  let rest := cs.dropWhile isNameChar
  if !atWordEnd rest then none
  let (t, rest) ← directiveValue? (String.ofList name) rest
  let rest := rest.dropWhile isSpace
  let rest := if rest.head? = some '#' then rest.dropWhile (!isBreak ·) else rest
  if atLineEnd rest then some (t, rest) else none

end Yaml

end AppWatch
