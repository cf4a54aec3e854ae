import TagWatch.Http.Network

/-!
# Networks from tables

A network whose responses are listed in advance, as routes. A request is answered by the first
route with its address, its method if the route names one, its authorization if the route asks
for one, and uses left; a request without a route gets an empty response of status 404. There is
no connection to any `https` address. A body never arrives in answer to `HEAD` or with
status 204.
-/

namespace TagWatch.Http

/-- A prepared response. -/
structure Route where
  url : String
  method : Option Method := none
  /-- The authorization that a request must have; some route asks that there be none. -/
  authorization : Option (Option String) := none
  /-- How often the route can still be used. -/
  times : Option Nat := none
  /-- What becomes of the request. -/
  delivery : Delivery
  deriving Repr, DecidableEq

namespace Route

/-- Whether a route answers a request. -/
def answers (sent : Sent) (r : Route) : Bool :=
  r.url == sent.url.render && r.method.all (· == sent.method)
    && r.authorization.all (· == sent.authorization) && r.times != some 0

/-- A route after it was used once more. -/
def used (r : Route) : Route := { r with times := r.times.map (· - 1) }

/-- The delivery of the first route that answers a request, and the routes after it. -/
def take (sent : Sent) : List Route → Delivery × List Route
  | [] => (.response 404 [] (.text ""), [])
  | r :: rest =>
    if r.answers sent then (r.delivery, r.used :: rest)
    else
      let (delivery, rest) := take sent rest
      (delivery, r :: rest)

end Route

end TagWatch.Http
