import ChannelRelay.CommandLine.Reading

/-!
# Invocations

What the relay can be started for, and the commands that say so.
-/

namespace ChannelRelay

/-- What the relay is started for. -/
inductive Invocation where
  /-- To serve requests, on a port other than the configured one if it is given. -/
  | serve (port : Option Nat)
  /-- For one reconciliation pass. -/
  | reconcile
  /-- To show the tokens of a name. -/
  | listTokens (channelName : String)
  /-- To revoke a token of a name. -/
  | revokeToken (channelName token : String)
deriving DecidableEq, Repr

namespace Invocation

open CommandLine

/-- The name and the version of the program. -/
def version : String := "hookrelay 0.1.0"

/-- The port to serve on. -/
def portOption : OptionSpec :=
  ⟨"port", some 'p', .number 65535, false, "Port to bind. Defaults to HOOKRELAY_PORT"⟩

/-- An option with a text that has to be given. -/
def requiredText (name : String) : OptionSpec :=
  ⟨name, none, .text, true, ""⟩

/-- The name of a channel. -/
def channelNameOption : OptionSpec := requiredText "channel-name"

/-- A token. -/
def tokenOption : OptionSpec := requiredText "token"

/-- The value of a required option. -/
def given (o : OptionSpec) (values : Values) : String :=
  (values.text? o.long).getD ""

/-- The commands of the relay; without one it serves. -/
def grammar : CommandSpec (Option Invocation) :=
  .group "hookrelay"
    "Per-channel webhook relay for Slack with token rotation and channel reconciliation"
    (some version) (some none)
    [.leaf "serve" "Start the relay server" [portOption]
        fun values => some (.serve (values.number? portOption.long)),
      .leaf "reconcile" "Run one reconciliation pass and exit" []
        fun _ => some .reconcile,
      .group "token" "Inspect and revoke stored tokens" none none
        [.leaf "list" "List tokens registered under a channel name" [channelNameOption]
            fun values => some (.listTokens (given channelNameOption values)),
          .leaf "revoke" "Revoke a token, e.g. one left behind by a renamed channel"
            [channelNameOption, tokenOption]
            fun values => some (.revokeToken (given channelNameOption values)
              (given tokenOption values))]]

/-- The invocation that the words after the name of the program are; none for no
words, which is to serve. -/
def read (words : List String) : Except Stop (Option Invocation) :=
  CommandLine.read grammar words

end Invocation

end ChannelRelay
