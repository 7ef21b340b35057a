import ChannelRelay.Failure
import ChannelRelay.Http.Message
import ChannelRelay.Json.Printer

/-!
# Failures as responses

A caller without a signature and a failing chat service are named to the client;
of all other failures it learns only that they happened.
-/

namespace ChannelRelay

/-- What a client is told of a failure. -/
structure FailureNotice where
  status : Nat
  type : String
  code : String
  text : String
deriving DecidableEq, Repr

/-- The notice about a failure. -/
def RelayError.notice : RelayError → FailureNotice
  | .invalidSignature =>
    ⟨401, "authentication_error", "invalid_signature", "invalid request signature"⟩
  | .slack cause => ⟨502, "upstream_error", "slack_failed", cause.message⟩
  | _ => ⟨500, "internal_error", "internal_server_error", "internal server error"⟩

/-- A notice as a JSON text. -/
def FailureNotice.body (n : FailureNotice) : String :=
  (Json.ofMembers [("error", Json.ofMembers
    [("message", .text n.text), ("type", .text n.type), ("code", .text n.code)])]).print

/-- The response to a failed request. -/
def RelayError.response (e : RelayError) : Response :=
  .json e.notice.status e.notice.body

end ChannelRelay
