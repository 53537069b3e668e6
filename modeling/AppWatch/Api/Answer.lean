/-
# Answers of the API server

An answer with a status of an error is a refusal: what its body says, or, where the body does not
say it, the status itself with the body quoted.  Any other answer is read as what was asked for.
-/
import AppWatch.Failure
import AppWatch.Json.Reader
import AppWatch.Object

namespace AppWatch

open Json (Written)

/-- What the server sends back. -/
structure ApiAnswer where
  status : Nat := 200
  body : String
deriving DecidableEq

/-! ## 1. Refusals -/

namespace ApiStatus

/-- Reads the code of a status. -/
def decodeCode : Written → Decoded Nat := Written.decodeBelow UInt16.size "u16"

/-- Reads one field. -/
def field (s : ApiStatus) (name : String) (w : Written) : Decoded ApiStatus :=
  match name with
  | "status" => do return { s with status := ← w.decodeText }
  | "message" => do return { s with message := ← w.decodeText }
  | "reason" => do return { s with reason := ← w.decodeText }
  | "code" => do return { s with code := ← decodeCode w }
  | _ => w.passing s

/-- The record of a refusal. -/
def layout : Layout ApiStatus where
  name := "ErrorResponse"
  fields := [("status", true), ("message", false), ("reason", false), ("code", true)]
  field := field

/-- Reads a refusal. -/
def ofWritten : Written → Decoded ApiStatus := layout.decode ⟨"", "", "", 0⟩

end ApiStatus

/-- What a status of an error says in words. -/
def statusPhrase : Nat → String
  | 400 => "Bad Request"
  | 401 => "Unauthorized"
  | 402 => "Payment Required"
  | 403 => "Forbidden"
  | 404 => "Not Found"
  | 405 => "Method Not Allowed"
  | 406 => "Not Acceptable"
  | 407 => "Proxy Authentication Required"
  | 408 => "Request Timeout"
  | 409 => "Conflict"
  | 410 => "Gone"
  | 411 => "Length Required"
  | 412 => "Precondition Failed"
  | 413 => "Payload Too Large"
  | 414 => "URI Too Long"
  | 415 => "Unsupported Media Type"
  | 416 => "Range Not Satisfiable"
  | 417 => "Expectation Failed"
  | 418 => "I'm a teapot"
  | 421 => "Misdirected Request"
  | 422 => "Unprocessable Entity"
  | 423 => "Locked"
  | 424 => "Failed Dependency"
  | 425 => "Too Early"
  | 426 => "Upgrade Required"
  | 428 => "Precondition Required"
  | 429 => "Too Many Requests"
  | 431 => "Request Header Fields Too Large"
  | 451 => "Unavailable For Legal Reasons"
  | 500 => "Internal Server Error"
  | 501 => "Not Implemented"
  | 502 => "Bad Gateway"
  | 503 => "Service Unavailable"
  | 504 => "Gateway Timeout"
  | 505 => "HTTP Version Not Supported"
  | 506 => "Variant Also Negotiates"
  | 507 => "Insufficient Storage"
  | 508 => "Loop Detected"
  | 510 => "Not Extended"
  | 511 => "Network Authentication Required"
  | _ => "<unknown status code>"

/-- Reads a text of JSON as a value of some type. -/
def readAs (decode : Written → Decoded α) (text : String) : Decoded α := do
  let d := Json.Document.ofText text
  let a ← decode d.root
  if d.isTrailed then .error (.broken .garbled) else return a

namespace ApiAnswer

/-- The refusal that an answer is, if it is one. -/
def refusal? (a : ApiAnswer) : Option ApiStatus :=
  if a.status < 400 || 600 ≤ a.status then none
  else some ((readAs ApiStatus.ofWritten a.body).toOption.getD {
    status := toString a.status ++ " " ++ statusPhrase a.status
    message := Text.quoted a.body
    reason := "Failed to parse error data"
    code := a.status })

/-- Reads an answer as what was asked for. -/
def read (decode : Written → Decoded α) (a : ApiAnswer) : Except ApiFailure α :=
  match a.refusal? with
  | some refusal => .error (.refused refusal)
  | none => (readAs decode a.body).mapError fun _ => .unreadable

end ApiAnswer

/-! ## 2. What was asked for -/

/-- One page of a listing. -/
structure ObjectPage where
  items : List ClusterObject := []
  /-- The version of the listing. -/
  version : Option String := none
  /-- The token that asks for the next page. -/
  token : Option String := none

namespace ObjectPage

/-- Reads one field of a page's metadata. -/
def metadataField (p : ObjectPage) (name : String) (w : Written) : Decoded ObjectPage :=
  match name with
  | "resourceVersion" => do return { p with version := ← w.decodeOptional Written.decodeText }
  | "continue" => do return { p with token := ← w.decodeOptional Written.decodeText }
  | "selfLink" => do
    let _ ← w.decodeOptional Written.decodeText
    return p
  | "remainingItemCount" => do
    let _ ← w.decodeOptional Written.decodeInt64
    return p
  | _ => w.passing p

/-- Reads one field; what a page does not have is read all the same. -/
def field (p : ObjectPage) (name : String) (w : Written) : Decoded ObjectPage :=
  match name with
  | "metadata" => w.decodeMembers "ListMeta" p metadataField
  | "items" => do
    return { p with items := ← w.decodeOr [] (Written.decodeItems ClusterObject.ofWritten) }
  | _ => do
    let _ ← w.decodeJson
    return p

/-- The record of a page; its items have to be given, if only as `null`. -/
def layout : Layout ObjectPage where
  name := "ObjectList"
  fields := [("metadata", false), ("items", true)]
  field := field

/-- Reads a page, which has to be an object. -/
def ofWritten : Written → Decoded ObjectPage
  | .arr items e => (Written.arr items e).mismatch "struct ObjectList"
  | w => layout.decode {} w

end ObjectPage

/-! ## 3. Acknowledgements -/

/-- Reads a value for its type alone. -/
def checked (value : Written → Decoded α) (w : Written) : Decoded Unit := (value w).map fun _ => ()

/-- A record that is read for the types of its fields alone, none of which is required. -/
def Layout.checking (name : String) (fields : List (String × (Written → Decoded Unit))) :
    Layout Unit where
  name := name
  fields := fields.map fun f => (f.1, false)
  field _ name w :=
    match fields.lookup name with
    | some read => read w
    | none => w.passing ()

namespace Acknowledgement

/-- Whether a deletion worked out. -/
def summary : Written → Decoded String := Written.decodeChoice ["Success", "Failure"]

/-- Reads one cause of a status. -/
def cause : Written → Decoded Unit :=
  (Layout.checking "StatusCause" [("reason", checked Written.decodeText),
    ("message", checked Written.decodeText), ("field", checked Written.decodeText)]).decode ()

/-- Reads the details of a status. -/
def details : Written → Decoded Unit :=
  (Layout.checking "StatusDetails" [("name", checked Written.decodeText),
    ("group", checked Written.decodeText), ("kind", checked Written.decodeText),
    ("uid", checked Written.decodeText), ("causes", checked (Written.decodeItems cause)),
    ("retryAfterSeconds", checked (Written.decodeBelow UInt32.size "u32"))]).decode ()

/-- Reads a status. -/
def status : Written → Decoded Unit :=
  (Layout.checking "Status" [("status", checked (Written.decodeOptional summary)),
    ("code", checked ApiStatus.decodeCode), ("message", checked Written.decodeText),
    ("reason", checked Written.decodeText),
    ("details", checked (Written.decodeOptional details))]).decode ()

/-- Reads the answer to a deletion: a status, or the object as it was.  All of it has to be
readable. -/
def ofWritten (w : Written) : Decoded Unit := do
  if (← w.decodeJson).member? "kind" = some (.str "Status") then status w
  else checked ClusterObject.ofWritten w

end Acknowledgement

end AppWatch
