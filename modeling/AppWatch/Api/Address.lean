/-
# Addresses of API servers

An address is a scheme, a server, a path and a query.  What is written as an address may leave out
the scheme, and then it is either a server alone or a path alone.  A fragment at the end does not
count.

Which characters may stand where goes by the rules for addresses of the web: the server allows
only the plain ones, the path and the query leave out only blanks, controls and a few marks.
-/

namespace AppWatch

/-- The address of an API server. -/
structure ServerAddress where
  scheme : Option String := none
  /-- The server's name with the number behind its colon, and what stands in front of an at sign. -/
  server : String := ""
  path : String := ""
  query : Option String := none
deriving DecidableEq, Repr

namespace ServerAddress

/-! ## 1. Characters -/

/-- Whether a character may stand in a scheme. -/
def isSchemeChar (c : Char) : Bool := c.isAlphanum || "+-.~".toList.contains c

/-- Whether a character is one of those that an address is made of. -/
def isAddressChar (c : Char) : Bool := c.isAlphanum || "-._~:/?#[]@!$&'()*+,;=".toList.contains c

/-- Whether a character is neither a blank nor a control character of the first 128. -/
def isVisible (c : Char) : Bool := 0x21 ≤ c.toNat && c.toNat ≠ 0x7F

/-- Whether a character may stand in a query. -/
def isQueryChar (c : Char) : Bool := isVisible c && !"\"#<>".toList.contains c

/-- Whether a character may stand in a path. -/
def isPathChar (c : Char) : Bool := isVisible c && !"#<>?`".toList.contains c

/-! ## 2. Servers -/

/-- What matters of the characters of a server that were read: the colons and whether there was a
percent sign since the last at sign or closing bracket, and the brackets. -/
structure ServerScan where
  colons : Nat := 0
  hasPercent : Bool := false
  isOpened : Bool := false
  isClosed : Bool := false
deriving DecidableEq

namespace ServerScan

/-- Reads one character, unless it may not stand there. -/
def read? (s : ServerScan) (c : Char) : Option ServerScan :=
  match c with
  | ':' => if 8 ≤ s.colons then none else some { s with colons := s.colons + 1 }
  | '[' => if s.hasPercent || s.isOpened then none else some { s with isOpened := true }
  | ']' =>
    if !s.isOpened || s.isClosed then none
    else some { s with isClosed := true, colons := 0, hasPercent := false }
  | '@' => some { s with colons := 0, hasPercent := false }
  | '%' => some { s with hasPercent := true }
  | c => if isAddressChar c then some s else none

/-- Whether a server may end here. -/
def isComplete (s : ServerScan) : Bool :=
  s.isOpened == s.isClosed && s.colons ≤ 1 && !s.hasPercent

end ServerScan

/-- Whether the characters are a server: at most one colon stands behind its name, brackets hold an
address of their own, and percent signs stand only in front of an at sign or in brackets. -/
def isServer (cs : List Char) : Bool :=
  cs.getLast? != some '@' && (cs.foldlM ServerScan.read? {}).any ServerScan.isComplete

/-- Whether a character ends a server. -/
def endsServer (c : Char) : Bool := c = '/' || c = '?' || c = '#'

/-! ## 3. Reading -/

/-- Puts a path, a query and a fragment behind an address; the fragment is dropped. -/
def withPath? (a : ServerAddress) (cs : List Char) : Option ServerAddress :=
  let path := cs.takeWhile fun c => c != '?' && c != '#'
  let address := { a with path := String.ofList path }
  if !path.all isPathChar then none
  else match cs.dropWhile fun c => c != '?' && c != '#' with
    | '?' :: rest =>
      let query := rest.takeWhile (· ≠ '#')
      if query.all isQueryChar then some { address with query := some (String.ofList query) }
      else none
    | _ => some address

/-- The scheme in front of an address, in small letters if it is a usual one, and what follows. -/
def scheme? (cs : List Char) : Option (String × List Char) :=
  let name := cs.takeWhile isSchemeChar
  match cs.dropWhile isSchemeChar with
  | ':' :: '/' :: '/' :: rest =>
    let small := String.ofList (name.map Char.toLower)
    some (if small = "http" || small = "https" then small else String.ofList name, rest)
  | _ => none

/-- The greatest size of an address in bytes. -/
def maxSize : Nat := 65534

/-- The greatest length of a scheme. -/
def maxScheme : Nat := 64

/-- Reads an address. -/
def read? (text : String) : Option ServerAddress :=
  let cs := text.toList
  if text = "" || maxSize < text.utf8ByteSize then none
  else if text = "*" then some { path := "*" }
  else if cs.head? = some '/' then withPath? {} cs
  else match scheme? cs with
    | none => if isServer cs && !cs.any endsServer then some { server := text } else none
    | some (scheme, rest) =>
      let server := rest.takeWhile fun c => !endsServer c
      if maxScheme < scheme.length || server.isEmpty || !isServer server then none
      else withPath? { scheme := some scheme, server := String.ofList server }
        (rest.dropWhile fun c => !endsServer c)

/-! ## 4. As text -/

/-- The address as text; behind a scheme the path has at least its slash. -/
def text (a : ServerAddress) : String :=
  let scheme := match a.scheme with
    | none => ""
    | some s => s ++ "://"
  let path := if a.path = "" && a.scheme.isSome then "/" else a.path
  let query := match a.query with
    | none => ""
    | some q => "?" ++ q
  scheme ++ a.server ++ path ++ query

end ServerAddress

end AppWatch
