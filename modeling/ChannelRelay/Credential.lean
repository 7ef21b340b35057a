import ChannelRelay.Failure
import ChannelRelay.Key
import ChannelRelay.Time.Instant

/-!
# Credentials

A credential lets its holder post to one channel.  Its key is the name the
channel had when it was issued, together with a version.
-/

namespace ChannelRelay

/-- A stored credential. -/
structure Credential where
  /-- The name of the channel when the token was issued. -/
  channelName : String
  version : Int32
  /-- The lasting identity of the channel. -/
  channelId : String
  token : String
  /-- The time of issue in RFC 3339. -/
  createdAt : String
deriving DecidableEq, Repr

namespace Credential

/-- The key of a record. -/
def key (c : Credential) : Key := ⟨c.channelName, c.version⟩

/-- A record issued at a time. -/
def issuedAt (now : Instant) (channelId channelName token : String) (version : Int32) :
    Credential :=
  ⟨channelName, version, channelId, token, now.nanosText⟩

end Credential

/-- What a channel is shown of a stored credential. -/
structure Entry where
  token : String
  version : Int32
  createdAt : Instant
deriving DecidableEq, Repr

/-- The entry of a record, if its time of issue can be read. -/
def Credential.entry (c : Credential) : Except RelayError Entry :=
  match Instant.parse? c.createdAt with
  | some createdAt => .ok ⟨c.token, c.version, createdAt⟩
  | none => .error (.corruptedRecord c.channelName c.version c.createdAt)

end ChannelRelay
