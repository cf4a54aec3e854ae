import TagWatch.Http.Message
import TagWatch.Http.Url
import TagWatch.Text.Base64

/-!
# Networks

A network delivers requests and brings back responses. Before a request is sent its address is
read and its token is checked; a request that cannot be formed never reaches the network. What
the network does with a request is left open: `Network.offline` is the network on which no
connection comes about.
-/

namespace TagWatch.Http

/-- A request as it is sent. -/
structure Sent where
  method : Method
  url : Url
  /-- The text of the header `Authorization`. -/
  authorization : Option String
  accept : String
  agent : String
  deriving Repr, DecidableEq

/-- What becomes of a request. -/
inductive Delivery where
  /-- There is no connection to the server. -/
  | noConnection
  /-- The connection breaks before the response is there. -/
  | broken
  | response (status : Nat) (headers : List (String × String)) (body : Body)
  deriving Repr, DecidableEq

/-- A network with a state. -/
abbrev Network (σ : Type) := Sent → σ → Delivery × σ

/-- The name by which the program introduces itself. -/
def userAgent : String := "tagscope/0.1.0"

/-- Whether a token can stand in a header. -/
def isHeaderValue (token : String) : Bool :=
  token.toList.all fun c => (0x20 ≤ c.toNat && c.toNat ≠ 0x7F) || c = '\t'

/-- The text of the header `Authorization` for a login. -/
def Login.authorization (l : Login) : String :=
  "Basic " ++ String.ofList (Text.base64 (l.name ++ ':'.toNat.toUInt8 :: l.password))

/-- The request to send for a description, if there is one. A login in the address counts before
a token. -/
def Request.prepare (r : Request) : Except NetworkFailure Sent :=
  match Url.read r.url with
  | .error failure => .error failure
  | .ok url =>
    if r.token.all isHeaderValue then
      .ok
        { method := r.method
          url := url
          authorization := (url.login.map Login.authorization).or (r.token.map ("Bearer " ++ ·))
          accept := r.accept.getD "*/*"
          agent := userAgent }
    else .error .malformed

namespace Network

variable {σ : Type}

/-- Sends a request and waits for the response. -/
def exchange (network : Network σ) (r : Request) (s : σ) :
    Except NetworkFailure Response × σ :=
  match r.prepare with
  | .error failure => (.error failure, s)
  | .ok sent =>
    let url := sent.url.render
    match network sent s with
    | (.response status headers body, s) => (.ok ⟨url, status, headers, body⟩, s)
    | (_, s) => (.error (.unreachable url), s)

/-- Runs a program on a network. -/
def run {α : Type} (network : Network σ) (p : HttpProgram α) (s : σ) : α × σ :=
  p.run (fun r s => network.exchange r s) s

/-- The network on which no connection comes about. -/
def offline : Network σ := fun _ s => (.noConnection, s)

/-- A network together with the requests that it delivered, in order. -/
def recording (network : Network σ) : Network (List Sent × σ) := fun sent (log, s) =>
  match network sent s with
  | (.noConnection, s) => (.noConnection, (log, s))
  | (delivery, s) => (delivery, (log ++ [sent], s))

end Network

end TagWatch.Http
