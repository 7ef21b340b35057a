import ChannelRelay.Channel
import ChannelRelay.Credential

/-!
# Reconciliation plans

What has drifted between the stored credentials and the channels as the directory
lists them: records of archived channels, names with two live tokens of one
channel, and live records whose channel now has another name.  Where the directory
lists an id more than once, the last entry decides.
-/

namespace ChannelRelay

/-- A record whose channel is archived. -/
structure ArchivedRecord where
  record : Credential
  /-- The name the directory has for the channel. -/
  listedName : String
deriving DecidableEq, Repr

/-- A record whose channel has another name now. -/
structure Renaming where
  channelId : String
  oldName : String
  newName : String
  token : String
deriving DecidableEq, Repr

/-- What a reconciliation has to do. -/
structure Plan where
  archived : List ArchivedRecord
  /-- One record for each name in migration, in the order of the names. -/
  migrations : List Credential
  renames : List Renaming
deriving DecidableEq, Repr

namespace Plan

/-- Whether there is nothing to do. -/
def isEmpty (p : Plan) : Bool :=
  p.archived.isEmpty && p.migrations.isEmpty && p.renames.isEmpty

/-- The entry that decides about an id. -/
def listed? (channels : List Channel) (id : String) : Option Channel :=
  channels.findRev? (·.id == id)

/-- The archived record that a record is, if its channel is archived. -/
def archived? (channels : List Channel) (c : Credential) : Option ArchivedRecord :=
  match listed? channels c.channelId with
  | some channel => if channel.isArchived then some ⟨c, channel.name⟩ else none
  | none => none

/-- The renaming of a record, if its channel is listed under another name. -/
def renaming? (channels : List Channel) (c : Credential) : Option Renaming :=
  match listed? channels c.channelId with
  | some channel =>
    if channel.name = c.channelName then none
    else some ⟨c.channelId, c.channelName, channel.name, c.token⟩
  | none => none

/-- Whether some record has the channel and the name of `c` and another token. -/
def isRotating (live : List Credential) (c : Credential) : Bool :=
  live.any fun other =>
    other.channelId == c.channelId && other.channelName == c.channelName && other.token != c.token

/-- Puts a record in its place among names, in place of an earlier one of its name. -/
def file (c : Credential) : List Credential → List Credential
  | [] => [c]
  | d :: rest =>
    if Utf8.encode c.channelName < Utf8.encode d.channelName then c :: d :: rest
    else if c.channelName = d.channelName then c :: rest
    else d :: file c rest

/-- The plan for some records and a listing. -/
def of (records : List Credential) (channels : List Channel) : Plan :=
  let live := records.filter fun c => (archived? channels c).isNone
  ⟨records.filterMap (archived? channels),
    (live.filter (isRotating live)).foldl (fun filed c => file c filed) [],
    live.filterMap (renaming? channels)⟩

end Plan

end ChannelRelay
