/-
# Certificates and keys

What makes bytes a certificate or a private key here is their form; whether a signature holds shows
only on a connection.  A private key belongs to a certificate if it tells the same public key.
-/
import AppWatch.Certificate.Element
import AppWatch.Certificate.Pem

namespace AppWatch

namespace Certificate

open Element

/-! ## 1. Parts of certificates -/

/-- Whether a value names an algorithm. -/
def isAlgorithm (e : Element) : Bool :=
  (e.parts? sequenceTag).any fun parts => parts.head?.any (isFilled identifierTag)

/-- Whether a value is one statement of a name: an identifier and a value. -/
def isStatement (e : Element) : Bool :=
  (e.parts? sequenceTag).any fun parts =>
    parts.length = 2 && parts.head?.any (isFilled identifierTag)

/-- Whether a value is the name of somebody. -/
def isName (e : Element) : Bool :=
  (e.parts? sequenceTag).any (·.all fun s => (s.parts? setTag).any (·.all isStatement))

/-- Whether a value is a point in time. -/
def isTime (e : Element) : Bool := e.tag = shortTimeTag || e.tag = longTimeTag

/-- Whether a value is a span of time. -/
def isSpan (e : Element) : Bool :=
  (e.parts? sequenceTag).any fun parts => parts.length = 2 && parts.all isTime

/-- Whether a value is a public key with its algorithm. -/
def isPublicKey (e : Element) : Bool :=
  match e.parts? sequenceTag with
  | some [algorithm, key] => isAlgorithm algorithm && key.isBits
  | _ => false

/-- Whether values are the parts of a certificate that may be left out, each at most once and in
their order. -/
def areOptional (parts : List Element) : Bool :=
  (parts.map (·.tag)).isSublist [optionalBitsTag 1, optionalBitsTag 2, optionalTag 3]

/-- Whether values are what a certificate states, behind its version. -/
def areStatements : List Element → Bool
  | serial :: algorithm :: issuer :: span :: subject :: key :: rest =>
    isFilled integerTag serial && isAlgorithm algorithm && isName issuer && isSpan span &&
      isName subject && isPublicKey key && areOptional rest
  | _ => false

/-- Whether a value is what a certificate states. -/
def isStated (e : Element) : Bool :=
  match e.parts? sequenceTag with
  | some (first :: rest) =>
    if first.tag = optionalTag 0 then areStatements rest else areStatements (first :: rest)
  | _ => false

/-- Whether bytes start with a certificate: what it states, the algorithm of the signature and the
signature. -/
def isCertificate (bytes : List UInt8) : Bool :=
  match (Element.read? bytes).bind fun e => e.1.parts? sequenceTag with
  | some [stated, algorithm, signature] =>
    isStated stated && isAlgorithm algorithm && signature.isBits
  | _ => false

/-- What a certificate states, behind its version. -/
def statements? (bytes : List UInt8) : Option (List Element) := do
  let (e, _) ← Element.read? bytes
  match ← (← (← e.parts? sequenceTag).head?).parts? sequenceTag with
  | first :: rest => if first.tag = optionalTag 0 then return rest else return first :: rest
  | [] => none

/-! ## 2. Keys -/

/-- The bits of a run of bits that ends with a whole byte. -/
def bits? (e : Element) : Option (List UInt8) :=
  match e.content with
  | 0 :: bits => if e.tag = bitsTag then some bits else none
  | _ => none

/-- The public key of a certificate, as it is encoded. -/
def publicKey? (bytes : List UInt8) : Option (List UInt8) := do
  let key ← (← statements? bytes)[5]?
  bits? (← (← key.parts? sequenceTag)[1]?)

/-- The parts of a private key; one that is wrapped together with its algorithm is unwrapped. -/
def keyParts? (bytes : List UInt8) : Option (List Element) := do
  let (e, _) ← Element.read? bytes
  match ← e.parts? sequenceTag with
  | version :: algorithm :: wrapped :: rest =>
    if algorithm.tag = sequenceTag && wrapped.tag = octetsTag then
      let (key, _) ← Element.read? wrapped.content
      return (key.parts? sequenceTag).getD [key]
    else return version :: algorithm :: wrapped :: rest
  | parts => return parts

/-- Whether bytes start with a private key: its parts start with a number or are bytes alone. -/
def isPrivateKey (bytes : List UInt8) : Bool :=
  (keyParts? bytes).any fun parts =>
    match parts with
    | [secret] => secret.tag = octetsTag
    | version :: _ => isFilled integerTag version
    | [] => false

/-- Whether a private key that tells its public key tells the given one: the modulus and the
exponent that follow its version, or a point in an optional part. -/
def tells (publicKey : List UInt8) (parts : List Element) : Bool :=
  match parts with
  | _ :: modulus :: exponent :: _ :: _ :: _ =>
    ((Element.read? publicKey).bind fun e => e.1.parts? sequenceTag) = some [modulus, exponent]
  | _ =>
    match parts.find? (·.tag = optionalTag 1) with
    | none => true
    | some e => ((Element.read? e.content).bind fun b => bits? b.1) = some publicKey

/-- Whether a private key belongs to a certificate. -/
def belongs (key certificate : List UInt8) : Bool :=
  match publicKey? certificate, keyParts? key with
  | some p, some parts => tells p parts
  | _, _ => false

/-- The least size of a modulus, in bytes. -/
def leastModulus : Nat := 256

/-- Whether the public key of a certificate is no modulus that is too short. -/
def isStrong (certificate : List UInt8) : Bool :=
  let parts := do
    let (e, _) ← Element.read? (← publicKey? certificate)
    e.parts? sequenceTag
  match parts with
  | some [modulus, exponent] =>
    modulus.tag ≠ integerTag || exponent.tag ≠ integerTag ||
      leastModulus ≤ (modulus.content.dropWhile (· = 0)).length
  | _ => true

/-! ## 3. Files -/

/-- The labels of certificates. -/
def certificateLabels : List String :=
  ["CERTIFICATE", "X509 CERTIFICATE", "TRUSTED CERTIFICATE"]

/-- The labels of private keys. -/
def keyLabels : List String :=
  ["PRIVATE KEY", "RSA PRIVATE KEY", "EC PRIVATE KEY", "DSA PRIVATE KEY"]

/-- The certificates of a file as they are encoded. -/
def ofFile? (bytes : List UInt8) : Option (List (List UInt8)) := do
  let blocks ← Pem.blocks? bytes
  return (blocks.filter (·.label = "CERTIFICATE")).map (·.content)

/-- Whether certificates and a private key are an identity: the key belongs to the first of the
certificates, whose own key is strong enough. -/
def areIdentity (certificates : List (List UInt8)) (key : List UInt8) : Bool :=
  certificates.all isCertificate && isPrivateKey key &&
    certificates.head?.any fun c => isStrong c && belongs key c

/-- Whether a file holds an identity. -/
def isIdentity (bytes : List UInt8) : Bool :=
  match Pem.blocks? bytes with
  | none => false
  | some blocks =>
    let labelled (labels : List String) :=
      (blocks.filter fun b => labels.contains b.label).map (·.content)
    (labelled keyLabels).head?.any (areIdentity (labelled certificateLabels))

end Certificate

end AppWatch
