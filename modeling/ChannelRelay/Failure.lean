import ChannelRelay.Text.Decimal

/-!
# Failures

What can go wrong, by cause.  Each kind of failure has one function that words
it; nothing else in the library writes an error text.
-/

namespace ChannelRelay

/-- Why a database did not do what it was asked. -/
inductive DatabaseError where
  /-- A statement that has to give a row gave none. -/
  | noRow
  /-- The server refused the statement with a message. -/
  | refused (text : String)
  /-- The server cannot be reached. -/
  | unreachable
deriving DecidableEq, Repr

/-- What the operating system says of a network that carries nothing. -/
def networkUnreachable : String := "Network is unreachable (os error 101)"

/-- The text of a database error. -/
def DatabaseError.message : DatabaseError → String
  | .noRow => "no rows returned by a query that expected to return at least one row"
  | .refused text => "error returned from database: " ++ text
  | .unreachable => "error communicating with database: " ++ networkUnreachable

/-- Why a store call failed. -/
inductive StoreError where
  /-- An insert found its key taken. -/
  | conflict (channelName : String) (version : Int32)
  /-- A delete found no record with its key and token. -/
  | noMatch (channelName : String) (version : Int32)
  | database (cause : DatabaseError)
deriving DecidableEq, Repr

/-- The text that names a record by its key. -/
def keyText (channelName : String) (version : Int32) : String :=
  s!"channel_name={channelName}, version={version.toInt}"

/-- The text of a store error. -/
def StoreError.message : StoreError → String
  | .conflict name version => "record already exists: " ++ keyText name version
  | .noMatch name version => "no matching record: " ++ keyText name version
  | .database cause => "database error: " ++ cause.message

/-- How many tokens are drawn before a source that repeats itself is given up. -/
def maxDraws : Nat := 4

/-- Why no token was generated. -/
inductive GenerationError where
  /-- The source of randomness failed. -/
  | source (text : String)
  /-- Every token drawn was already in use. -/
  | collisions
deriving DecidableEq, Repr

/-- The text of a generation error. -/
def GenerationError.message : GenerationError → String
  | .source text => text
  | .collisions => s!"same token generated {maxDraws} times in a row"

/-- The methods of the chat service that are called. -/
inductive SlackMethod where
  | postMessage
  | listConversations
  | conversationInfo
deriving DecidableEq, Repr

/-- The name of a method on the wire. -/
def SlackMethod.name : SlackMethod → String
  | .postMessage => "chat.postMessage"
  | .listConversations => "conversations.list"
  | .conversationInfo => "conversations.info"

/-- Why a call to the chat service failed. -/
inductive SlackError where
  /-- A failure known only by its text. -/
  | reported (text : String)
  /-- No answer came back. -/
  | requestFailed (method : SlackMethod)
  /-- The answer broke off. -/
  | bodyUnread (method : SlackMethod)
  /-- The answer is not of the agreed form. -/
  | unexpectedBody (method : SlackMethod)
  /-- The answer has a status that is no success. -/
  | statusReturned (method : SlackMethod) (status body : String)
  /-- The service said that the call failed. -/
  | callFailed (method : SlackMethod) (reason : String)
  /-- The service knows a conversation but did not describe it. -/
  | noChannel
  /-- Posting a relayed message ended in a status that is no error status. -/
  | unexpectedStatus (status : Nat) (body : String)
  /-- A notification timed out. -/
  | noticeTimeout
  /-- A notification was answered with another status than 200. -/
  | noticeFailed (status : Nat) (body : String)
  /-- A notification was rejected. -/
  | noticeRejected (channelName channelId reason : String)
deriving DecidableEq, Repr

/-- What stands for the words of the transport. -/
def transportDetail : String := "<transport-error>"

/-- What stands for the words of the JSON reader. -/
def jsonDetail : String := "<json-error>"

/-- The text of a failed call. -/
def SlackError.message : SlackError → String
  | .reported text => text
  | .requestFailed method => s!"{method.name} request failed: {transportDetail}"
  | .bodyUnread method => s!"reading {method.name} body failed: {transportDetail}"
  | .unexpectedBody method => s!"unexpected {method.name} body: {jsonDetail}"
  | .statusReturned method status body =>
    s!"{method.name} returned error: status={status}, body={body}"
  | .callFailed method reason => s!"{method.name} failed: {reason}"
  | .noChannel => "conversations.info returned no channel"
  | .unexpectedStatus status body =>
    s!"unexpected status code from Slack API: status={status}, body={body}"
  | .noticeTimeout => "slack server timeout"
  | .noticeFailed status body => s!"slack server error: status={status}, body={body}"
  | .noticeRejected name id reason =>
    s!"slack API error: channel_name={name}, channel_id={id}, reason={reason}"

/-- Why an operation of the relay failed. -/
inductive RelayError where
  | store (cause : StoreError)
  | tokenGeneration (cause : GenerationError)
  /-- A record whose time of creation cannot be read. -/
  | corruptedRecord (channelName : String) (version : Int32) (createdAt : String)
  | slack (cause : SlackError)
  | invalidSignature
  | internal (text : String)
deriving DecidableEq, Repr

namespace RelayError

/-- The text of an error. -/
def message : RelayError → String
  | .store cause => "storage error: " ++ cause.message
  | .tokenGeneration cause => "token generation failed: " ++ cause.message
  | .corruptedRecord name version createdAt =>
    s!"corrupted record: {keyText name version}, created_at={createdAt}"
  | .slack cause => "slack error: " ++ cause.message
  | .invalidSignature => "invalid request signature"
  | .internal text => "internal error: " ++ text

/-- Whether another writer was first to insert the same key. -/
def isConflict : RelayError → Bool
  | .store (.conflict _ _) => true
  | _ => false

end RelayError

end ChannelRelay
