import ChannelRelay.Server.Failure
import ChannelRelay.Server.Route
import ChannelRelay.Slash.Handler
import ChannelRelay.Surroundings
import ChannelRelay.Webhook.Handler

/-!
# Responses

The response to a request: the answer of its route, or what stands for it where
there is no such route, the method is not allowed, the body is too long, the
operation fails or the deadline is over.  Every response names its request and
must not be cached.
-/

namespace ChannelRelay

/-- What the server knows from its settings. -/
structure Server where
  signingSecret : String
  /-- The domain shown in webhook URLs; without one it is the host of the request. -/
  customDomain : Option String
deriving DecidableEq, Repr

namespace Server

/-- How many bytes a body may have. -/
def maxBody : Nat := 1024 * 1024

/-- The answer to a request that took too long. -/
def timedOut : Response :=
  .plain 408 "Request timed out.\n"

/-- The answer to a body that is too long. -/
def tooLong : Response :=
  .plain 413 "Failed to buffer the request body: length limit exceeded"

/-- The answer to a method that a route does not allow. -/
def notAllowed (route : Route) : Response :=
  (Response.empty 405).withHeader "allow" (Utf8.encode (",".intercalate route.methods))

/-- The answer of a route. -/
def answer (s : Server) (now : Instant) (r : Request) : Route → Operation Response
  | .health => return .json 200 "\x7b\"message\":\"ok\"\x7d"
  | .metrics => do
    let counted ← ExceptT.lift (Dialogue.call .counters)
    return .typed 200 "text/plain; version=0.0.4" counted.text
  | .webhook => Webhook.handle r
  | .slash => Slash.handle s.signingSecret s.customDomain now r

/-- An operation that answers failures too. -/
def settled (operation : Operation Response) : Dialogue Response :=
  Dialogue.bind operation.run fun
    | .ok response => .done response
    | .error e => .done e.response

/-- Answers a request. -/
def respond (s : Server) (now : Instant) (r : Request) : Dialogue Response :=
  match Route.ofPath? r.path with
  | none => .done (.empty 404)
  | some route =>
    if !route.methods.contains r.method then .done (notAllowed route)
    -- The whole body is read before the operation begins.
    else if route.readsBody && maxBody < r.body.length then .done tooLong
    else
      (settled (s.answer now r route)).bind fun response =>
        .done (if r.method = "HEAD" then response.withoutBody else response)

/-- The header that names a request. -/
def requestId : String := "x-request-id"

/-- The name of a request: the one it was given, or a new one. -/
def requestName (fresh : List UInt8) (r : Request) : List UInt8 :=
  match r.headers.first? requestId with
  | none => fresh
  | some given => if given.isEmpty then fresh else given

/-- Adds what every response says. -/
def finish (fresh : List UInt8) (r : Request) (response : Response) : Response :=
  (((response.withHeader requestId (requestName fresh r)).withHeader
    "cache-control" (Utf8.encode "no-store")).withHeader
    "x-content-type-options" (Utf8.encode "nosniff")).withHeader
    "referrer-policy" (Utf8.encode "no-referrer")

/-- Serves a request in its surroundings. -/
def serve (s : Server) (now : Instant) (fresh : List UInt8) (r : Request) (around : Surroundings) :
    Response × Surroundings :=
  let (response, around) := (s.respond now r).runUntil Surroundings.answerInTime around
  (finish fresh r (response.getD timedOut), around)

end Server

end ChannelRelay
