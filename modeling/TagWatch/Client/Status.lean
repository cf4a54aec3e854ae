import TagWatch.Http.Message
import TagWatch.Json.Reader
import TagWatch.Text.Numeral

/-!
# What responses mean to a client

A response whose status is no success is an error, and which one depends on the status. The body
of a successful response is JSON text.
-/

namespace TagWatch.Http.Response

/-- The number of seconds after which a registry wants to be asked again. -/
def retryAfter? (r : Response) : Option Nat :=
  (r.header? "retry-after").bind fun value => Text.signedWord? value.toList

/-- The error that the status of a response means for a question about an image. -/
def error? (image : String) (r : Response) : Option RegistryError :=
  if r.status = 404 then some (.notFound image)
  else if r.status = 401 ∨ r.status = 403 then
    some (.unauthorized (image ++ " (" ++ statusText r.status ++ ")"))
  else if r.status = 429 then some (.rateLimited r.retryAfter?)
  else if r.isSuccess then none
  else some (.invalidResponse ("Unexpected status: " ++ statusText r.status))

/-- The value in the body of a response. -/
def decode {α : Type} (read : Json → Option α) (r : Response) : Except RegistryError α :=
  let value? := match r.body with
    | .text content => (Json.read? content).bind read
    | .binary => none
  match value? with
  | some a => .ok a
  | none => .error (.invalidResponse ("error decoding response body for url (" ++ r.url ++ ")"))

/-- The value in the body of a response to a question about an image. -/
def content {α : Type} (image : String) (read : Json → Option α) (r : Response) :
    Except RegistryError α :=
  match r.error? image with
  | some error => .error error
  | none => r.decode read

end TagWatch.Http.Response
