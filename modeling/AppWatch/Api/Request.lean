/-
# Requests to the API server

The collection of a kind stands under its group and version, below a namespace if the kind has
namespaces and one is asked for.  Names and namespaces stand in a path as they are; the values of
a query are encoded.  What stands behind a number sign is not sent, and a path with a character
that no path may hold cannot be asked for.
-/
import AppWatch.Api.Address
import AppWatch.Kind

namespace AppWatch

/-- What a request does. -/
inductive Method where
  | get
  | delete
deriving DecidableEq, Repr

/-- A request to the API server. -/
structure ApiRequest where
  method : Method := .get
  path : String
  /-- The parameters behind the question mark, if there is one. -/
  query : Option (List (String × String)) := none
deriving DecidableEq

/-! ## 1. As text -/

/-- The method in capital letters. -/
def Method.text : Method → String
  | get => "GET"
  | delete => "DELETE"

namespace ApiRequest

/-- A hexadecimal digit in capital letters. -/
def hexDigit (n : Nat) : Char := (Nat.digitChar n).toUpper

/-- How a byte stands in the value of a parameter. -/
def encodeByte (b : UInt8) : List Char :=
  let c := Char.ofNat b.toNat
  if c.isAlphanum || c = '*' || c = '-' || c = '.' || c = '_' then [c]
  else if c = ' ' then ['+']
  else ['%', hexDigit (b.toNat / 16), hexDigit (b.toNat % 16)]

/-- How a text stands in the value of a parameter. -/
def encode (s : String) : String := String.ofList (s.toUTF8.toList.flatMap encodeByte)

/-- A parameter with the mark in front of it. -/
def parameterText (p : String × String) : String := "&" ++ p.1 ++ "=" ++ encode p.2

/-- The path and the query. -/
def target (r : ApiRequest) : List Char :=
  r.path.toList ++
    match r.query with
    | none => []
    | some parameters => '?' :: (String.join (parameters.map parameterText)).toList

/-- Whether every character may stand where it does. -/
def isSendable (r : ApiRequest) : Bool := (ServerAddress.withPath? {} r.target).isSome

/-- The request line. -/
def text (r : ApiRequest) : String :=
  r.method.text ++ " " ++ String.ofList (r.target.takeWhile (· ≠ '#'))

/-! ## 2. The requests for a kind -/

/-- The path to the objects of a kind in a scope. -/
def collection (k : KindDescriptor) (scope : String) : String :=
  (if k.gvr.group = "" then "/api/" else "/apis/") ++ k.gvr.apiVersion ++ "/" ++
    (if k.namespaced && scope != "" then "namespaces/" ++ scope ++ "/" else "") ++ k.gvr.resource

/-- The path to one object. -/
def object (k : KindDescriptor) (scope name : String) : String := collection k scope ++ "/" ++ name

/-- Asks for a page of the objects in a scope; a token asks for a further page. -/
def list (k : KindDescriptor) (scope : String) (limit : Nat) (token : Option String := none) :
    ApiRequest where
  path := collection k scope
  query := some (("limit", toString limit) :: (token.map fun t => ("continue", t)).toList)

/-- Asks for the changes in a scope after a version. -/
def watch (k : KindDescriptor) (scope version : String) : ApiRequest where
  path := collection k scope
  query := some [("watch", "true"), ("timeoutSeconds", "290"), ("allowWatchBookmarks", "true"),
    ("resourceVersion", version)]

/-- Asks for one object. -/
def get (k : KindDescriptor) (scope name : String) : ApiRequest where
  path := object k scope name

/-- Asks to delete one object. -/
def delete (k : KindDescriptor) (scope name : String) : ApiRequest where
  method := .delete
  path := object k scope name
  query := some []

end ApiRequest

end AppWatch
