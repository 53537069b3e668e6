/-
# Users of clusters

How a user proves to a cluster who it is: with a certificate and its key, with a token or a
password, or through a provider of tokens.  A plugin would be a program of its own and is never
run, so that a user who has nothing else is refused.
-/
import AppWatch.Certificate
import AppWatch.Config.Load
import AppWatch.Timestamp

namespace AppWatch

/-! ## 1. Bytes in place or in a file -/

/-- Bytes that are given in place, as text, or else in a file. -/
structure Material where
  inPlace : Option String := none
  file : Option String := none
deriving DecidableEq, Repr

namespace Material

/-- Bytes with a line end behind them, if there are any. -/
def withLineEnd (bytes : List UInt8) : List UInt8 :=
  if bytes.getLast?.any (· ≠ 0x0A) then bytes ++ [0x0A] else bytes

/-- The bytes, unless none are given or they cannot be read. -/
def load? (files : String → FileState) (m : Material) : Option (List UInt8) :=
  match m.inPlace, m.file with
  | some text, _ => (Text.ofBase64? text.toList).map withLineEnd
  | none, some path =>
    match files path with
    | .holds text => some (withLineEnd text.toUTF8.toList)
    | .absent | .unreadable => none
  | none, none => none

end Material

/-! ## 2. Providers of tokens -/

/-- A provider of tokens with its settings. -/
structure TokenProvider where
  name : String
  settings : SortedMap String String := .empty
deriving DecidableEq

namespace TokenProvider

/-- How long a token has to last on, in seconds. -/
def reserve : Int := 60

/-- Whether a point in time is written that is far enough behind the given second. -/
def isAhead (now : Int) (text : String) : Bool :=
  match Timestamp.read text with
  | .ok t => now + reserve < t.seconds
  | .error _ => false

/-- Whether the settings hold a token that is valid at the given second. -/
def hasToken (now : Int) (p : TokenProvider) : Bool :=
  let has (name : String) := (p.settings.get? name).isSome
  match p.name with
  | "oidc" => has "id-token"
  | "gcp" => has "id-token" ||
    (has "access-token" && (p.settings.get? "expiry").any (isAhead now))
  | _ => false

end TokenProvider

/-! ## 3. Users -/

/-- What a user has to prove who it is. -/
structure UserAccess where
  username : Option String := none
  password : Option String := none
  token : Option String := none
  tokenFile : Option String := none
  certificate : Material := {}
  key : Material := {}
  provider : Option TokenProvider := none
  hasPlugin : Bool := false
  /-- The user that this one acts as. -/
  actsAs : Option String := none
  /-- The groups that it acts as a member of. -/
  groups : List String := []
deriving DecidableEq

namespace UserAccess

/-- Whether the user can prove who it is, as far as words go; nothing at all will do.  The provider
counts first, then a name with its password, then a token and at last the file with one. -/
def isAuthorized (files : String → FileState) (now : Int) (u : UserAccess) : Bool :=
  match u.provider with
  | some p => p.hasToken now
  | none =>
    if (u.username.isSome && u.password.isSome) || u.token.isSome then true
    else match u.tokenFile with
      | none => !u.hasPlugin
      | some path =>
        match files path with
        | .holds _ => true
        | .absent | .unreadable => false

/-- Whether the certificate and the key of the user are what they have to be.  If one of them is not
there, the other does not count. -/
def hasSoundIdentity (files : String → FileState) (u : UserAccess) : Bool :=
  match u.key.load? files, u.certificate.load? files with
  | some key, some certificate => Certificate.isIdentity (key ++ certificate)
  | _, _ => true

/-- Whether a text can be sent in the head of a request: no control characters but tabs. -/
def isSendable (s : String) : Bool :=
  s.toList.all fun c => (0x20 ≤ c.toNat && c.toNat ≠ 0x7F) || c = '\t'

/-- Whether requests can be made for the user. -/
def isUsable (files : String → FileState) (now : Int) (u : UserAccess) : Bool :=
  u.isAuthorized files now && u.hasSoundIdentity files && u.actsAs.all isSendable &&
    u.groups.all isSendable

/-- The files that the user is read from. -/
def files (u : UserAccess) : List String :=
  [u.certificate.file, u.key.file, u.tokenFile].filterMap id

end UserAccess

end AppWatch
