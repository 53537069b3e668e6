/-
# Watching a kind

A watch starts with a listing, page by page, and then asks for what changes after the version of
the listing.  The server answers that with a stream of lines, each an event; when the stream ends
the program asks again from the last version it has seen.

A failed listing, a version that is missing, and the server's word that a version is gone start
the watch over with a new listing.  After any other failure it goes on where it is.
-/
import AppWatch.Api.Answer
import AppWatch.Api.Request
import AppWatch.Text.NameList
import AppWatch.Watch.Event

namespace AppWatch

open Json (Written)

/-! ## 1. The lines of a stream -/

/-- A line of a stream. -/
inductive StreamLine where
  | applied (object : ClusterObject)
  | deleted (object : ClusterObject)
  /-- A new version without a change. -/
  | bookmark (version : String)
  | refused (status : ApiStatus)
  /-- A line that is no event. -/
  | failed (cause : ApiFailure)

namespace StreamLine

/-- The version that a bookmark's metadata names. -/
def bookmarkMetadata : Layout String where
  name := "BookmarkMeta"
  fields := [("resourceVersion", true), ("annotations", false)]
  field version name w :=
    match name with
    | "resourceVersion" => w.decodeText
    | "annotations" => (w.decodeTextMap).map fun _ => version
    | _ => w.passing version

/-- Reads one member of a bookmark: metadata, or plain JSON. -/
def bookmarkPart (parts : Option String × List (String × Json)) (name : String) (w : Written) :
    Decoded (Option String × List (String × Json)) :=
  match name, parts with
  | "metadata", (none, others) => do return (some (← bookmarkMetadata.decode "" w), others)
  | "metadata", (some _, _) => .error (.repeatedField name)
  | _, (version, others) => do return (version, (name, ← w.decodeJson) :: others)

/-- Reads a bookmark, which has to name its type and its version. -/
def bookmarkOfWritten (w : Written) : Decoded StreamLine := do
  match ← w.decodeMembers "struct Bookmark" (none, []) bookmarkPart with
  | (none, _) => .error (.missingField "metadata")
  | (some version, others) =>
    match (ClusterObject.takeTypes none none others.reverse).1 with
    | none => .error (.missingField "apiVersion")
    | some _ => return bookmark version

/-- Reads the type of an event. -/
def typeOfWritten : Written → Decoded String :=
  Written.decodeChoice ["ADDED", "MODIFIED", "DELETED", "BOOKMARK", "ERROR"]

/-- Reads what an event of the given type is about. -/
def ofParts (type : String) (object : Written) : Decoded StreamLine :=
  match type with
  | "DELETED" => return deleted (← ClusterObject.ofWritten object)
  | "BOOKMARK" => bookmarkOfWritten object
  | "ERROR" => return refused (← ApiStatus.ofWritten object)
  | _ => return applied (← ClusterObject.ofWritten object)

/-- What was read of the members of an event. -/
inductive Parts where
  | nothing
  | type (type : String)
  /-- What the event is about, as long as its type is not known. -/
  | object (object : Written)
  | whole (line : StreamLine)

/-- Reads one member of an event.  What stands in front of the type has to be readable as it is. -/
def part (parts : Parts) (name : String) (w : Written) : Decoded Parts :=
  match name, parts with
  | "type", .nothing => do return .type (← typeOfWritten w)
  | "type", .object o => do return .whole (← ofParts (← typeOfWritten w) o)
  | "object", .nothing => do
    let _ ← w.decodeJson
    return .object w
  | "object", .type t => do return .whole (← ofParts t w)
  | "type", _ | "object", _ => .error (.repeatedField name)
  | _, _ => w.passing parts

/-- Reads an event: an object, or the array of its type and of what it is about. -/
def ofWritten : Written → Decoded StreamLine
  | .arr [] e => do
    let _ ← Written.ending e ()
    .error (.missingElement 0 "WatchEvent" 2)
  | .arr [t] e => do
    let _ ← typeOfWritten t
    let _ ← Written.ending e ()
    .error (.missingElement 1 "WatchEvent" 2)
  | .arr (t :: o :: more) e => do
    let line ← ofParts (← typeOfWritten t) o
    if more.isEmpty then Written.ending e line else .error (.extraElements (2 + more.length))
  | w => do
    match ← w.decodeMembers "WatchEvent" .nothing part with
    | .whole line => return line
    | .type _ => .error (.missingField "object")
    | .nothing | .object _ => .error (.missingField "type")

/-- Reads a line.  One that is cut short says nothing; one that is a refusal instead of an event
is that refusal. -/
def read (line : String) : Option StreamLine :=
  match readAs ofWritten line with
  | .ok l => some l
  | .error (.broken .cutShort) => none
  | .error _ =>
    match readAs ApiStatus.ofWritten line with
    | .ok status => some (failed (.refused status))
    | .error _ => some (failed .unreadable)

/-- Drops a carriage return at the end of a line. -/
def withoutReturn (line : List Char) : List Char :=
  match line.reverse with
  | '\r' :: cs => cs.reverse
  | _ => line

/-- The lines of a stream. -/
def readAll (body : String) : List StreamLine :=
  (Text.segments '\n' body.toList).filterMap fun line => read (String.ofList (withoutReturn line))

end StreamLine

/-! ## 2. The course of a watch -/

/-- How far a watch has come. -/
inductive WatchPhase where
  /-- Nothing was asked yet. -/
  | empty
  /-- A listing is under way: the token of the next page, what is left of the last page, and the
  version of the listing. -/
  | listing (token : Option String) (objects : List ClusterObject) (version : Option String)
  /-- Everything up to a version was seen. -/
  | listed (version : String)
  /-- Lines of a stream are left. -/
  | watching (version : String) (lines : List StreamLine)

/-- What a watch does next. -/
inductive WatchStep where
  | yields (item : StreamItem) (next : WatchPhase)
  | asks (request : ApiRequest)

/-- What a watch is about. -/
structure WatchTarget where
  kind : KindDescriptor
  scope : String

namespace WatchTarget

/-- How many objects a page of a listing may have. -/
def pageSize : Nat := 500

/-- A failure of a watch, as its stream yields it. -/
def failure (cause : StreamFailure) : StreamItem := .failure (.stream cause)

/-- The version of an object, if it has one that is not empty. -/
def versionOf? (o : ClusterObject) : Option String := o.metadata.resourceVersion.filter (· ≠ "")

/-- Goes through the lines of a stream up to the next item. -/
def readLines (t : WatchTarget) (version : String) : List StreamLine → WatchStep
  | [] => .asks (.watch t.kind t.scope version)
  | .bookmark version :: lines => t.readLines version lines
  | .applied o :: lines =>
    match versionOf? o with
    | none => .yields (failure .noVersion) .empty
    | some version => .yields (.event (.apply o)) (.watching version lines)
  | .deleted o :: lines =>
    match versionOf? o with
    | none => .yields (failure .noVersion) .empty
    | some version => .yields (.event (.delete o)) (.watching version lines)
  | .refused status :: lines =>
    .yields (failure (.reported status))
      (if status.code = 410 then .empty else .watching version lines)
  | .failed cause :: lines => .yields (failure (.reading cause)) (.watching version lines)

/-- Asks for a page of the listing; a request that cannot be sent has failed. -/
def askPage (t : WatchTarget) (token : Option String) : WatchStep :=
  let request := ApiRequest.list t.kind t.scope pageSize token
  if request.isSendable then .asks request
  else .yields (failure (.listing .invalidName)) .empty

/-- What the watch does next. -/
def step (t : WatchTarget) : WatchPhase → WatchStep
  | .empty => .yields (.event .init) (.listing none [] none)
  | .listing token (o :: os) version => .yields (.event (.initApply o)) (.listing token os version)
  | .listing none [] (some version) => .yields (.event .initDone) (.listed version)
  | .listing token [] _ => t.askPage token
  | .listed version => t.readLines version []
  | .watching version lines => t.readLines version lines

/-- The version up to which everything was seen when the watch asks for changes. -/
def lastVersion (version : String) : List StreamLine → String
  | .bookmark version :: lines => lastVersion version lines
  | _ => version

/-- Goes on from the answer to what the watch has asked; a failed listing is an item. -/
def receive (answer : ApiAnswer) : WatchPhase → Option StreamItem × WatchPhase
  | .listed version => (none, .watching version (StreamLine.readAll answer.body))
  | .watching version lines =>
    (none, .watching (lastVersion version lines) (StreamLine.readAll answer.body))
  | .empty | .listing _ _ _ =>
    match answer.read ObjectPage.ofWritten with
    | .error cause => (some (failure (.listing cause)), .empty)
    | .ok page =>
      match page.token.filter (· ≠ ""), page.version.filter (· ≠ "") with
      | none, none => (some (failure .noVersion), .empty)
      | token, version => (none, .listing token page.items version)

end WatchTarget

end AppWatch
