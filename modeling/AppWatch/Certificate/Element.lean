/-
# Encoded values

Certificates and keys are encoded as values within values.  A value starts with a byte that tells
what it is, how many bytes its content takes follows, and then the content.
-/

namespace AppWatch

namespace Certificate

/-- An encoded value: what it is and its content. -/
structure Element where
  tag : Nat
  content : List UInt8
deriving DecidableEq, Repr

namespace Element

/-! ## 1. What values are -/

def integerTag : Nat := 0x02
def bitsTag : Nat := 0x03
def octetsTag : Nat := 0x04
def identifierTag : Nat := 0x06
def shortTimeTag : Nat := 0x17
def longTimeTag : Nat := 0x18
def sequenceTag : Nat := 0x30
def setTag : Nat := 0x31

/-- The part of a sequence with a number, which may be left out. -/
def optionalTag (number : Nat) : Nat := 0xA0 + number

/-- The same for a part whose content is no value. -/
def optionalBitsTag (number : Nat) : Nat := 0x80 + number

/-! ## 2. Reading -/

/-- The number that bytes stand for. -/
def number (bytes : List UInt8) : Nat := bytes.foldl (fun n b => n * 256 + b.toNat) 0

/-- A length and what follows it: a byte below 128, or how many bytes the length takes and those. -/
def length? : List UInt8 → Option (Nat × List UInt8)
  | [] => none
  | b :: rest =>
    if b < 0x80 then some (b.toNat, rest)
    else
      let width := b.toNat - 0x80
      if width = 0 || 8 < width || rest.length < width then none
      else some (number (rest.take width), rest.drop width)

/-- The first value and what follows it. -/
def read? : List UInt8 → Option (Element × List UInt8)
  | [] => none
  | tag :: rest => do
    let (size, rest) ← length? rest
    if rest.length < size then none
    else some (⟨tag.toNat, rest.take size⟩, rest.drop size)

/-- All values, with nothing behind them; `count` bounds how many are read. -/
def readAll? : (count : Nat) → List UInt8 → Option (List Element)
  | _, [] => some []
  | 0, _ => none
  | count + 1, bytes => do
    let (e, rest) ← read? bytes
    return e :: (← readAll? count rest)

/-- The values in a value with the given tag. -/
def parts? (tag : Nat) (e : Element) : Option (List Element) :=
  if e.tag = tag then readAll? e.content.length e.content else none

/-- Whether a value has the given tag and content of at least one byte. -/
def isFilled (tag : Nat) (e : Element) : Bool := e.tag = tag && !e.content.isEmpty

/-- Whether a value is a run of bits: the first byte tells how many bits at the end do not count. -/
def isBits (e : Element) : Bool := e.tag = bitsTag && e.content.head?.any (· < 8)

end Element

end Certificate

end AppWatch
