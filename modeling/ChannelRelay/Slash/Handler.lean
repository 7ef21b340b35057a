import ChannelRelay.Http.Message
import ChannelRelay.Json.Printer
import ChannelRelay.Rotation
import ChannelRelay.Signing.Signature
import ChannelRelay.Slash.Command
import ChannelRelay.Slash.Name
import ChannelRelay.Text.Blank
import ChannelRelay.Webhook.Address

/-!
# Answering slash commands

A command is answered only if its request is signed.  The answer is a text that
the whole channel sees.  That another operation on the same name was faster is no
failure: the channel is asked to try again.
-/

namespace ChannelRelay.Slash

/-- What is asked of a conversation that is no channel the relay can see. -/
def unsupportedText : String :=
  "hookrelay only supports public/private channels. If this is a private channel, invite the hookrelay bot.\n"

/-- What a channel is told when another operation on its name was faster. -/
def tryAgainText : String :=
  s!"Another token operation for this channel finished at the same time. Check with `{SlashName.list.text}` and try again.\n"

/-- The line of a token with its URL. -/
def entryLine (domain channelName : String) (entry : Entry) : String :=
  s!"- {entry.token} (v{entry.version.toInt}, {entry.createdAt.secondsText}): "
    ++ Address.url domain ⟨channelName, entry.token⟩

/-- The text about the tokens of a channel. -/
def listText (domain channelName : String) (entries : List Entry) : String :=
  if entries.isEmpty then "No token and url generated for this channel.\n"
  else
    "Available tokens for this channel:\n"
      ++ "\n".intercalate (entries.map (entryLine domain channelName)) ++ "\n"

/-- The text about the first token of a channel. -/
def issueText (domain channelName : String) (issue : Rotation.Issue) : String :=
  if issue.isNew then
    s!"Token generated: {issue.token}, " ++ Address.url domain ⟨channelName, issue.token⟩ ++ "\n"
  else
    s!"Token already generated. To check generated token, use `{SlashName.list.text}`. To generate another token, use `{SlashName.regenerate.text}`.\n"

/-- The text about a second token of a channel. -/
def addedText (domain channelName : String) : Rotation.Added → String
  | .noTokenFound =>
    s!"No token has been generated for this channel. Use `{SlashName.generate.text}` to generate a token.\n"
  | .tooManyTokens =>
    s!"Two tokens have been generated for this channel. Ensure the old token is not used, then revoke it with `{SlashName.revoke.text}`.\n"
  | .generated token =>
    "Another token generated for this channel: " ++ Address.url domain ⟨channelName, token⟩ ++ "\n"

/-- The text about a token that is not there. -/
def noPairText (channelName token : String) : String :=
  s!"No pair found, check the token: channel_name={channelName}, token={token}\n"

/-- The text about a revocation. -/
def revokedText (channelName token : String) : Rotation.Revoked → String
  | .notFound => noPairText channelName token
  | .revoked => s!"Token revoked: channel_name={channelName}, token={token}\n"

/-- The text about the revocation of a token under an earlier name. -/
def revokedRenamedText (channelId oldName token : String) : Rotation.RevokedRenamed → String
  | .notFound => noPairText oldName token
  | .stillLinked linkedId =>
    s!"Found pair but the token is still linked to this channel, revoke it from a channel named {oldName} with `{SlashName.revoke.text}`: channel_name={oldName}, token={token}, linked_channel_id={linkedId}, channel_id={channelId}\n"
  | .revoked => s!"Token revoked: old_channel_name={oldName}, token={token}\n"

/-- The text about a command whose words are not a name and a token. -/
def argumentsText : String :=
  "Invalid arguments for the slash command. This command expects `<channel name> <token>` as arguments.\n"

/-- Carries out a command. -/
def carryOut (now : Instant) (domain : String) (c : SlashCommand) : SlashName → Operation String
  | .list => do
    let entries ← Rotation.entries c.channelName
    return listText domain c.channelName entries
  | .generate => do
    let issue ← Rotation.issue now c.channelId c.channelName
    return issueText domain c.channelName issue
  | .regenerate => do
    let added ← Rotation.add now c.channelId c.channelName
    return addedText domain c.channelName added
  | .revoke => do
    let token := Blank.trim c.text
    let outcome ← Rotation.revoke c.channelName token
    return revokedText c.channelName token outcome
  | .revokeRenamed =>
    match Blank.words c.text with
    | [oldName, token] => do
      let outcome ← Rotation.revokeRenamed c.channelId oldName token
      return revokedRenamedText c.channelId oldName token outcome
    | _ => return argumentsText

/-- The text that answers a command. -/
def answer (now : Instant) (domain : String) (c : SlashCommand) : Operation String :=
  if !c.isSupported then return unsupportedText
  else
    match SlashName.ofText? c.command with
    | none => return "Missing command.\n"
    | some name =>
      tryCatch (carryOut now domain c name) fun e =>
        -- The operation made no change, so it can simply be given again.
        if e.isConflict then return tryAgainText else throw e

/-- A text for the whole channel. -/
def inChannel (text : String) : Response :=
  .json 200 ("\x7b\"text\":" ++ Json.quoted text ++ ",\"response_type\":\"in_channel\"\x7d")

/-- The domain that webhook URLs are shown under: the configured one, else the host
that the request names. -/
def domain (configured : Option String) (headers : Headers) : String :=
  (configured.or (headers.text? "host")).getD "localhost"

/-- Answers the request of a slash command. -/
def handle (secret : String) (customDomain : Option String) (now : Instant) (r : Request) :
    Operation Response :=
  if !Signature.verify secret r.headers r.body (Int64.ofInt now.seconds) then
    throw .invalidSignature
  else do
    let c ← (SlashForm.ofBody r.body).resolve
    Operation.count .commands (Metrics.commandValue c.command)
    let text ← answer now (domain customDomain r.headers) c
    return inChannel text

end ChannelRelay.Slash
