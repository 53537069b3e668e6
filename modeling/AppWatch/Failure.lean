/-
# What can fail

The failures of the watching engine by their causes; `Failure.message` puts them into words.
-/
import AppWatch.Kind

namespace AppWatch

/-- An error answer of the cluster's API. -/
structure ApiStatus where
  status : String
  message : String := ""
  reason : String := ""
  code : Nat
deriving DecidableEq, Repr

/-- What went wrong between the program and the cluster's API. -/
inductive ApiFailure where
  /-- The server answered with an error. -/
  | refused (answer : ApiStatus)
  /-- Discovery found a group without versions. -/
  | emptyGroup (group : String)
  /-- A request for an object needs the object's name. -/
  | emptyName
  /-- A name holds a character that no path may hold. -/
  | invalidName
  /-- Discovery was given a version that no path may hold. -/
  | invalidVersion
  /-- An answer could not be read. -/
  | unreadable
deriving DecidableEq, Repr

/-- What went wrong on a watch. -/
inductive StreamFailure where
  /-- The first listing failed. -/
  | listing (cause : ApiFailure)
  /-- The open watch could not be read. -/
  | reading (cause : ApiFailure)
  /-- The server reported an error on the open watch. -/
  | reported (answer : ApiStatus)
  /-- A listing or an object came without a version. -/
  | noVersion
deriving DecidableEq, Repr

/-- Why an object is no application. -/
inductive ParseProblem where
  | missingSpec
  | malformed (cause : DecodeError)
deriving DecidableEq, Repr

/-- A failure of the watching engine. -/
inductive Failure where
  | transport (cause : ApiFailure)
  | stream (cause : StreamFailure)
  /-- A watch did not start, for a reason given in words. -/
  | watchStart (kind : String) (reason : String)
  /-- A watch did not start because its scope cannot be listed. -/
  | cannotList (kind : KindDescriptor) (scope : String) (cause : Failure)
  /-- An application could not be read. -/
  | parse (key : String) (problem : ParseProblem)
  /-- An object of the named kind has no name. -/
  | nameless (kind : String)
  | unexpectedObject (text : String)
  | queueClosed
deriving DecidableEq, Repr

/-- An error answer in full. -/
def ApiStatus.describe (s : ApiStatus) : String :=
  "ErrorResponse \x7b status: " ++ Text.quoted s.status ++ ", message: " ++
    Text.quoted s.message ++ ", reason: " ++ Text.quoted s.reason ++ ", code: " ++
    toString s.code ++ " \x7d"

/-- The failure in words. -/
def ApiFailure.message : ApiFailure → String
  | .refused s => "ApiError: " ++ s.message ++ ": " ++ s.reason ++ " (" ++ s.describe ++ ")"
  | .emptyGroup group => "Error from discovery: Empty Api Group: " ++ group
  | .emptyName =>
    "Failed to build request: failed to validate request: A non-empty name is required"
  | .invalidName => "Failed to build request: failed to build request: invalid uri character"
  | .invalidVersion => "HttpError: invalid uri character"
  | .unreadable => "Error deserializing response"

/-- The failure in words. -/
def StreamFailure.message : StreamFailure → String
  | .listing cause => "failed to perform initial object list: " ++ cause.message
  | .reading cause => "watch stream failed: " ++ cause.message
  | .reported s => "error returned by apiserver during watch: " ++ s.message ++ ": " ++ s.reason
  | .noVersion => "no metadata.resourceVersion in watch result (does resource support watch?)"

/-- The problem in words. -/
def ParseProblem.message : ParseProblem → String
  | .missingSpec => "missing spec"
  | .malformed cause => cause.message

/-- The failure in words. -/
def Failure.message : Failure → String
  | .transport cause => "cluster API request failed: " ++ cause.message
  | .stream cause => "watch stream failed: " ++ cause.message
  | .watchStart kind reason => "failed to start watch for " ++ kind ++ ": " ++ reason
  | .cannotList kind scope cause =>
    "failed to start watch for " ++ kind.text ++ ": cannot list in '" ++ scope ++ "': " ++
      cause.message
  | .parse key problem => "failed to parse application " ++ key ++ ": " ++ problem.message
  | .nameless kind => "unexpected object: " ++ kind ++ " object without metadata.name"
  | .unexpectedObject text => "unexpected object: " ++ text
  | .queueClosed => "batch queue closed"

end AppWatch
