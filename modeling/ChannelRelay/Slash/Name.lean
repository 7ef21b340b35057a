import ChannelRelay.Metrics

/-!
# The names of the slash commands

Every command is called by the same opening and a verb of its own, so no two
commands share a name.
-/

namespace ChannelRelay

/-- The slash commands of the relay. -/
inductive SlashName where
  | list
  | generate
  | regenerate
  | revoke
  | revokeRenamed
deriving DecidableEq, Repr

namespace SlashName

/-- All commands. -/
def all : List SlashName := [.list, .generate, .regenerate, .revoke, .revokeRenamed]

/-- The part of a name that tells the commands apart. -/
def verb : SlashName → String
  | .list => "show"
  | .generate => "generate"
  | .regenerate => "regenerate"
  | .revoke => "revoke"
  | .revokeRenamed => "revoke-renamed"

/-- The name that a command is called by. -/
def text (name : SlashName) : String :=
  Metrics.commandStart ++ name.verb

/-- The command of a name. -/
def ofText? (name : String) : Option SlashName :=
  all.find? (·.text == name)

end SlashName

end ChannelRelay
