import ChannelRelay.Call
import ChannelRelay.Text.Form

/-!
# Slash commands

A command arrives as a form.  The name of the channel it was given in is always
looked up by the id of the channel, because the name in the form may be out of
date; where the conversation cannot be seen, or is none with a name of its own,
the command is not supported.
-/

namespace ChannelRelay

/-- A slash command as it arrives; a missing field is empty, and of repeated fields
the last one counts. -/
structure SlashForm where
  command : String
  channelId : String
  channelName : String
  text : String
deriving DecidableEq, Repr

/-- The command in the body of a request. -/
def SlashForm.ofBody (body : List UInt8) : SlashForm :=
  let fields := Form.parse body
  ⟨Form.lastOf "command" fields, Form.lastOf "channel_id" fields,
    Form.lastOf "channel_name" fields, Form.lastOf "text" fields⟩

/-- A slash command whose channel is looked up. -/
structure SlashCommand where
  command : String
  channelId : String
  /-- The name that the channel has now. -/
  channelName : String
  /-- The name that the form gives. -/
  givenName : String
  text : String
  isSupported : Bool
deriving DecidableEq, Repr

namespace SlashForm

/-- The command of a form whose conversation is described, if it can be seen. -/
def described (form : SlashForm) (conversation : Option Conversation) : SlashCommand :=
  match conversation with
  | some c =>
    ⟨form.command, form.channelId, c.name, form.channelName, form.text, c.isChannel || c.isGroup⟩
  | none =>
    ⟨form.command, form.channelId, form.channelName, form.channelName, form.text, false⟩

/-- Looks up the channel of a form. -/
def resolve (form : SlashForm) : Operation SlashCommand := do
  let conversation ← Operation.conversation form.channelId
  return form.described conversation

end SlashForm

end ChannelRelay
