import ChannelRelay.Failure
import ChannelRelay.Json.Printer
import ChannelRelay.Slack.Reply
import ChannelRelay.Slack.Wire

/-!
# The client of the chat service

Posting a message, listing all channels page by page, and describing one
conversation.  Every request carries the bot token and is tried again while it
ends transiently and retries are left; the last attempt counts.
-/

namespace ChannelRelay

/-- How the service is called. -/
structure Client where
  token : String
  /-- The path of the service on its server. -/
  basePath : String
  maxRetries : Nat
  /-- How many milliseconds an attempt may take. -/
  readTimeout : Nat
deriving DecidableEq, Repr

namespace Client

/-- A text without slashes at its end. -/
def withoutSlashes (text : String) : String :=
  String.ofList ((text.toList.reverse.dropWhile (· == '/')).reverse)

/-- The path of a method. -/
def path (c : Client) (method : SlackMethod) : String :=
  withoutSlashes c.basePath ++ "/" ++ method.name

/-- The blanks that a header value does not begin or end with. -/
def isPadding (c : Char) : Bool := c == ' ' || c == '\t'

/-- The credentials that a request carries, as a header value. -/
def authorization (c : Client) : String :=
  String.ofList (("Bearer " ++ c.token).toList.reverse.dropWhile isPadding).reverse

/-- Whether a text can stand in a header: no control characters but the tab. -/
def isSendable (text : String) : Bool :=
  (Utf8.encode text).all fun b => (0x20 ≤ b && b != 0x7F) || b == 0x09

/-- Sends a request, unless its credentials cannot be written in a header. -/
def send (c : Client) (request : Outgoing) (w : Wire) : Attempt × Wire :=
  if isSendable c.token then w.send c.readTimeout request c.maxRetries
  else (.unanswered, w)

/-- The media type of a posted message. -/
def messageType : String := "application/json; charset=utf-8"

/-- The members of a posted message: the payload with its channel. -/
def message (channel : String) (payload : Json.Members) : Json :=
  .object (payload.set "channel" (.text channel))

/-- The request that posts a message. -/
def postRequest (c : Client) (channel : String) (payload : Json.Members) : Outgoing :=
  ⟨"POST", c.path .postMessage, [], c.authorization, some messageType,
    Utf8.encode (message channel payload).print⟩

/-- The text of a body that is read leniently. -/
def bodyText (bytes : List UInt8) : String :=
  Utf8.withoutMark (Utf8.decodeLossy bytes)

/-- What the last attempt at posting a message means. -/
def postResult (channel channelName : String) : Attempt → Except SlackError PostResult
  | .unanswered => .error (.requestFailed .postMessage)
  | .timedOut => .ok .timeout
  | .answered _ .stalled => .ok .timeout
  | .answered _ .short => .error (.bodyUnread .postMessage)
  | .answered status (.whole bytes) =>
    let text := bodyText bytes
    if status = 200 then
      match (Json.Document.ofChars? text.toList).bind Reply.outcome? with
      | none => .error (.unexpectedBody .postMessage)
      | some outcome => if outcome.ok then .ok .ok else .ok (.rejected outcome.error channel channelName)
    else .ok (.serverFailure status text)

/-- Posts a message to a channel, which is named for the case of a rejection. -/
def post (c : Client) (channel channelName : String) (payload : Json.Members) (w : Wire) :
    Except SlackError PostResult × Wire :=
  let (outcome, w) := c.send (c.postRequest channel payload) w
  (postResult channel channelName outcome, w)

/-- What the last attempt at a question means, if its answer is read by `reply`. -/
def answerOf {α : Type} (method : SlackMethod) (reply : Json.Document → Option α) :
    Attempt → Except SlackError α
  | .unanswered => .error (.requestFailed method)
  | .timedOut => .error (.requestFailed method)
  | .answered status body =>
    if Status.isSuccess status then
      match body with
      | .whole bytes =>
        match (Json.Document.ofBytes? bytes).bind reply with
        | some a => .ok a
        | none => .error (.unexpectedBody method)
      | _ => .error (.unexpectedBody method)
    else
      let text := match body with
        | .whole bytes => bodyText bytes
        | _ => ""
      .error (.statusReturned method (Status.text status) text)

/-- The request that asks a question. -/
def question (c : Client) (method : SlackMethod) (query : List Form.Field) : Outgoing :=
  ⟨"GET", c.path method, query, c.authorization, none, []⟩

/-- How many channels a page of a listing has at most. -/
def pageLimit : String := "200"

/-- The query for the page after a cursor, archived channels included. -/
def pageQuery (cursor : String) : List Form.Field :=
  [("cursor", cursor), ("exclude_archived", "false"), ("limit", pageLimit),
    ("types", "public_channel,private_channel")]

/-- Asks for the page after a cursor. -/
def page (c : Client) (cursor : String) (w : Wire) : Except SlackError Reply.Page × Wire :=
  let (outcome, w) := c.send (c.question .listConversations (pageQuery cursor)) w
  (answerOf .listConversations Reply.page? outcome, w)

/-- A listing that is under way: the channels of the pages read, and the cursor of
the page to ask for. -/
structure Listing where
  found : List Channel
  cursor : String
deriving DecidableEq, Repr

/-- How a listing goes on after a page. -/
inductive Listing.Next where
  | more (l : Listing)
  | ended (result : Except SlackError (List Channel))

/-- Takes a page: a failure ends the listing, and so does a page without a cursor. -/
def Listing.take (l : Listing) : Except SlackError Reply.Page → Listing.Next
  | .error e => .ended (.error e)
  | .ok page =>
    if !page.ok then .ended (.error (.callFailed .listConversations page.error))
    else
      let found := l.found ++ page.channels
      if page.next.isEmpty then .ended (.ok found) else .more ⟨found, page.next⟩

theorem page_shorter {c : Client} {cursor : String} {w : Wire} {p : Reply.Page}
    (h : (c.page cursor w).1 = .ok p) :
    (c.page cursor w).2.script.length < w.script.length := by
  simp only [page, send] at *
  split at h
  · rename_i hsend
    simp only [hsend, if_true]
    cases hattempt : (w.send c.readTimeout (c.question .listConversations (pageQuery cursor))
        c.maxRetries).1 with
    | unanswered => simp [hattempt, answerOf] at h
    | timedOut => simp [hattempt, answerOf] at h
    | answered status body =>
      refine Wire.send_success hattempt ?_
      simp only [hattempt, answerOf] at h
      split at h
      · assumption
      · simp at h
  · simp [answerOf] at h

/-- Carries on a listing to its end. -/
def listFrom (c : Client) (l : Listing) (w : Wire) :
    Except SlackError (List Channel) × Wire :=
  match _hpage : (c.page l.cursor w).1 with
  | .error e => (.error e, (c.page l.cursor w).2)
  | .ok p =>
    -- Every page takes a step of the script, so a circle of cursors comes to an end.
    match l.take (.ok p) with
    | .ended result => (result, (c.page l.cursor w).2)
    | .more next => c.listFrom next (c.page l.cursor w).2
termination_by w.script.length
decreasing_by exact page_shorter (by assumption)

/-- Every channel, archived ones included. -/
def listChannels (c : Client) (w : Wire) : Except SlackError (List Channel) × Wire :=
  c.listFrom ⟨[], ""⟩ w

/-- What the description of a conversation means; one that is not found is none. -/
def described (d : Reply.Description) : Except SlackError (Option Conversation) :=
  if d.ok then
    match d.conversation with
    | some conversation => .ok (some conversation)
    | none => .error .noChannel
  else if d.error = "channel_not_found" then .ok none
  else .error (.callFailed .conversationInfo d.error)

/-- The description of a conversation. -/
def conversation (c : Client) (id : String) (w : Wire) :
    Except SlackError (Option Conversation) × Wire :=
  let (outcome, w) := c.send (c.question .conversationInfo [("channel", id)]) w
  ((answerOf .conversationInfo Reply.description? outcome).bind described, w)

end Client

end ChannelRelay
