/-
# A scripted API server

A server that a rehearsal talks to in place of a cluster.  Its script says which request gets which
answer, and each answer is given once.  A request that the script does not know is not found, save
that a watch goes unanswered: a server with no news keeps silent.

Exchanges and watches that are played against it leave what was asked and what came of it.
-/
import AppWatch.Api.Exchange
import AppWatch.Api.Watch
import AppWatch.Json.Printer

namespace AppWatch

/-- A server that answers from a script. -/
structure ScriptedServer where
  /-- The answers that are left, each with the text of its request. -/
  script : List (String × ApiAnswer) := []

/-! ## 1. Answers -/

/-- Whether a request asks for the changes of a kind. -/
def ApiRequest.isWatch (r : ApiRequest) : Bool :=
  r.query.any fun parameters => parameters.contains ("watch", "true")

namespace ScriptedServer

/-- The answer to a request that the script does not know. -/
def notFound (request : String) : ApiAnswer where
  status := 404
  body := Json.text (Json.object [("kind", .str "Status"), ("apiVersion", .str "v1"),
    ("status", .str "Failure"), ("message", .str ("no answer for " ++ request)),
    ("reason", .str "NotFound"), ("code", Json.ofNat 404)])

/-- The answer to a request, if it gets one, and the server after it. -/
def answer (s : ScriptedServer) (r : ApiRequest) : Option ApiAnswer × ScriptedServer :=
  match s.script.find? (·.1 = r.text) with
  | some (_, a) => (some a, { script := s.script.eraseP (·.1 = r.text) })
  | none => (if r.isWatch then none else some (notFound r.text), s)

end ScriptedServer

/-! ## 2. Exchanges -/

/-- What an exchange has led to. -/
structure Played (α : Type) where
  /-- The result; `none` if the server kept silent. -/
  result : Option (Except ApiFailure α)
  /-- What was asked, as text and in order. -/
  requests : List String := []
  notices : List Notice := []
  server : ScriptedServer

/-- Plays an exchange against a server. -/
def Exchange.play (s : ScriptedServer) : Exchange α → Played α
  | done result => { result := some result, server := s }
  | ask r next =>
    match s.answer r with
    | (none, s) => { result := none, requests := [r.text], server := s }
    | (some a, s) =>
      let p := (next a).play s
      { p with requests := r.text :: p.requests }
  | report n next =>
    let p := next.play s
    { p with notices := n :: p.notices }

/-! ## 3. Watches -/

/-- What a watch has led to. -/
structure PlayedWatch where
  items : List StreamItem := []
  /-- Whether the server kept silent before enough items had come. -/
  isIdle : Bool := false
  requests : List String := []
  server : ScriptedServer

namespace WatchTarget

/-- Plays a watch from a phase on until so many items have come.  A turn yields an item or uses up
an answer of the script, which bounds the turns. -/
def playFrom (t : WatchTarget) :
    (turns wanted : Nat) → WatchPhase → ScriptedServer → PlayedWatch
  | 0, _, _, s => { server := s }
  | _, 0, _, s => { server := s }
  | turns + 1, wanted + 1, phase, s =>
    match t.step phase with
    | .yields item next =>
      let p := t.playFrom turns wanted next s
      { p with items := item :: p.items }
    | .asks r =>
      match s.answer r with
      | (none, s) => { isIdle := true, requests := [r.text], server := s }
      | (some a, s) =>
        match receive a phase with
        | (none, next) =>
          let p := t.playFrom turns (wanted + 1) next s
          { p with requests := r.text :: p.requests }
        | (some item, next) =>
          let p := t.playFrom turns wanted next s
          { p with items := item :: p.items, requests := r.text :: p.requests }

/-- Plays a watch from its start until so many items have come. -/
def play (t : WatchTarget) (wanted : Nat) (s : ScriptedServer) : PlayedWatch :=
  t.playFrom (wanted + s.script.length) wanted .empty s

end WatchTarget

end AppWatch
