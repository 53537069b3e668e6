/-
# Exchanges with the API server

An exchange is what the program does with the server until it has a result or fails: it asks and
goes on from the answer, and it reports as it goes.  Exchanges are plain values, so what one does
against any server can be told without a server.
-/
import AppWatch.Api.Answer
import AppWatch.Api.Request
import AppWatch.Notice

namespace AppWatch

/-- What is done with the server to come to a value. -/
inductive Exchange (α : Type) where
  | done (result : Except ApiFailure α)
  | ask (request : ApiRequest) (next : ApiAnswer → Exchange α)
  | report (notice : Notice) (next : Exchange α)

namespace Exchange

/-- Goes on from the value that an exchange comes to. -/
def andThen (e : Exchange α) (f : α → Exchange β) : Exchange β :=
  match e with
  | done (.ok a) => f a
  | done (.error failure) => done (.error failure)
  | ask request next => ask request fun answer => (next answer).andThen f
  | report notice next => report notice (next.andThen f)

instance : Monad Exchange where
  pure a := done (.ok a)
  bind := andThen

/-- Fails. -/
def fail (failure : ApiFailure) : Exchange α := done (.error failure)

/-- Reports a notice. -/
def notify (notice : Notice) : Exchange Unit := report notice (pure ())

/-- Asks, if the request can be sent. -/
def send (r : ApiRequest) (next : ApiAnswer → Exchange α)
    (unsendable : ApiFailure := .invalidName) : Exchange α :=
  if r.isSendable then ask r next else fail unsendable

/-- Asks and reads the answer. -/
def request (r : ApiRequest) (decode : Json.Written → Decoded α)
    (unsendable : ApiFailure := .invalidName) : Exchange α :=
  send r (fun answer => done (answer.read decode)) unsendable

end Exchange

end AppWatch
