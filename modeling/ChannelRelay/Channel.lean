/-!
# Channels

What the chat service tells about its channels and about messages posted to them,
and what a caller says in a slash command.
-/

namespace ChannelRelay

/-- A channel as the directory lists it. -/
structure Channel where
  id : String
  name : String
  isArchived : Bool
deriving DecidableEq, Repr

/-- A conversation as it is described on request. -/
structure Conversation where
  id : String
  name : String
  isChannel : Bool
  isGroup : Bool
deriving DecidableEq, Repr

/-- How posting a message ended. -/
inductive PostResult where
  | ok
  | timeout
  /-- The answer had another status than 200. -/
  | serverFailure (status : Nat) (body : String)
  /-- The service answered, and refused the message. -/
  | rejected (reason channelId channelName : String)
deriving DecidableEq, Repr

end ChannelRelay
