import ChannelRelay.Text.Decimal

/-!
# Command grammars

A command is a group of further commands or a leaf that takes options, each with
one value.  Every command has a help text; a group can be asked for the help of
each command in it.
-/

namespace ChannelRelay.CommandLine

/-- What the value of an option has to be. -/
inductive ValueKind where
  | text
  /-- A whole number up to `largest`. -/
  | number (largest : Nat)
deriving DecidableEq, Repr

/-- Whether a text is a value of a kind. -/
def ValueKind.accepts : ValueKind → String → Bool
  | .text, _ => true
  | .number largest, value => (Decimal.readInt? 0 largest value).isSome

/-- An option with a value. -/
structure OptionSpec where
  long : String
  short : Option Char
  kind : ValueKind
  isRequired : Bool
  about : String
deriving DecidableEq, Repr

namespace OptionSpec

/-- What stands for the value of an option in a help text. -/
def valueName (o : OptionSpec) : String :=
  o.long.map fun c => if c = '-' then '_' else c.toUpper

/-- An option as it is written in a help text. -/
def shape (o : OptionSpec) : String :=
  "--" ++ o.long ++ " <" ++ o.valueName ++ ">"

end OptionSpec

/-- The values of options, by their long names. -/
abbrev Values := List (String × String)

namespace Values

/-- The value of an option, if it is given. -/
def text? (name : String) (values : Values) : Option String :=
  values.lookup name

/-- The number that is the value of an option, if it is given. -/
def number? (name : String) (values : Values) : Option Nat :=
  (values.lookup name).bind fun value =>
    (Decimal.readInt? 0 Int64.maxValue.toInt value).map Int.toNat

end Values

/-- A command whose invocations are of type `α`. -/
inductive CommandSpec (α : Type) where
  /-- A group of commands.  Without a command it means `alone`, if it means
  anything; a group with a version can be asked for it. -/
  | group (name about : String) (version : Option String) (alone : Option α)
      (children : List (CommandSpec α))
  /-- A command that takes options. -/
  | leaf (name about : String) (options : List OptionSpec) (build : Values → α)

namespace CommandSpec

variable {α : Type}

/-- The name of a command. -/
def name : CommandSpec α → String
  | .group name _ _ _ _ => name
  | .leaf name _ _ _ => name

/-- What a command does, in one line. -/
def about : CommandSpec α → String
  | .group _ about _ _ _ => about
  | .leaf _ about _ _ => about

/-- The commands in a group. -/
def children : CommandSpec α → List (CommandSpec α)
  | .group _ _ _ _ children => children
  | .leaf _ _ _ _ => []

/-- The command of a name. -/
def find? (name : String) (commands : List (CommandSpec α)) : Option (CommandSpec α) :=
  commands.find? (·.name == name)

theorem find?_shorter {name : String} {commands : List (CommandSpec α)} {c : CommandSpec α}
    (h : find? name commands = some c) : sizeOf c < sizeOf commands :=
  List.sizeOf_lt_of_mem (List.mem_of_find?_eq_some h)

end CommandSpec

end ChannelRelay.CommandLine
