import ChannelRelay.Http.Status
import ChannelRelay.Rotation
import ChannelRelay.Slash.Name
import ChannelRelay.Webhook.Address
import ChannelRelay.Webhook.Payload

/-!
# Relaying a message

A message sent to a webhook is checked in a fixed order: first its address, then
the token against the store, then the body.  Only what passes all three is posted,
to the channel that the token was issued for and under the name it was issued
under.  Every request whose token could be looked up is counted by its outcome.
-/

namespace ChannelRelay.Webhook

/-- How a webhook request ended. -/
inductive Outcome where
  | invalidPath
  | notFound
  | unmatch
  | badBody
  /-- The post could not be made. -/
  | failed
  | delivered
  | timeout
  /-- The chat service answered with another status than 200. -/
  | serviceError
  | rejected
deriving DecidableEq, Repr

/-- The label value of an outcome. -/
def Outcome.label : Outcome → String
  | .invalidPath => "invalid_path"
  | .notFound => "not_found"
  | .unmatch => "unmatch"
  | .badBody => "bad_body"
  | .failed => "error"
  | .delivered => "ok"
  | .timeout => "timeout"
  | .serviceError => "upstream_error"
  | .rejected => "rejected"

/-- Counts an outcome. -/
def count (outcome : Outcome) : Operation Unit :=
  Operation.count .webhookRequests outcome.label

/-- Counts an outcome and answers with a text. -/
def reply (outcome : Outcome) (status : Nat) (text : String) : Operation Response := do
  count outcome
  return .plain status text

/-- The answer to a request whose name has no token. -/
def notFoundText (channelName : String) : String :=
  s!"No token generated for {channelName}, generate token with `{SlashName.generate.text}` slash command.\n"

/-- The answer to a request that the chat service rejected. -/
def rejectionText (reason channelId channelName : String) : String :=
  if reason = "channel_not_found" then
    s!"invite bot to the channel: channel_name={channelName}, channel_id={channelId}, reason={reason}\n"
  else s!"Slack API responses error: reason={reason}\n"

/-- The answer to a request whose post ended in a status. -/
def failureText (status : Nat) (body : String) : String :=
  s!"Slack API error: status={status}, body={body}\n"

/-- The answer to a request that was posted. -/
def answer : PostResult → Operation Response
  | .ok => reply .delivered 200 "ok.\n"
  | .timeout => reply .timeout 504 "Slack API timeout.\n"
  | .serverFailure status body =>
    -- A fault of the chat service is not passed on as a fault of the relay.
    if Status.isServerError status then reply .serviceError 502 (failureText status body)
    else if Status.isClientError status then
      reply .serviceError status (failureText status body)
    else do
      count .serviceError
      throw (.slack (.unexpectedStatus status body))
  | .rejected reason channelId channelName =>
    reply .rejected 400 (rejectionText reason channelId channelName)

/-- Posts a payload; a post that cannot be made is counted before it fails. -/
def post (channelId channelName : String) (payload : Json.Members) : Operation PostResult :=
  tryCatch (Operation.post channelId channelName payload) fun e => do
    count .failed
    throw e

/-- Relays the payload of a body to the channel of a token. -/
def deliver (channelId channelName : String) (headers : Headers) (body : List UInt8) :
    Operation Response :=
  match Payload.read headers body with
  | .error _ => reply .badBody 400 "Invalid body given. JSON Unmarshal failed.\n"
  | .ok payload => do
    let result ← post channelId channelName payload
    answer result

/-- Answers a webhook request. -/
def handle (r : Request) : Operation Response :=
  match Address.ofPath? r.path with
  | none => reply .invalidPath 400 "Invalid request path\n"
  | some address => do
    -- Nothing of the body is looked at before the token is found to be valid.
    match ← Rotation.verify address.channelName address.token with
    | .notFound => reply .notFound 404 (notFoundText address.channelName)
    | .unmatch => reply .unmatch 401 "Invalid token given. Check generated URL.\n"
    | .matched channelId channelName => deliver channelId channelName r.headers r.body

end ChannelRelay.Webhook
