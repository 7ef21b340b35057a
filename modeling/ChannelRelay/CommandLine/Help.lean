import ChannelRelay.CommandLine.Grammar

/-!
# Help texts

What a command does, how it is written, and a table of its commands and of its
options.  The rows of a table are indented by two blanks and their second column
stands two blanks after the widest first one.
-/

namespace ChannelRelay.CommandLine

/-- The rows of a table with two columns. -/
def table (rows : List (String × String)) : String :=
  let width := (rows.map (·.1.length)).foldl max 0
  String.join (rows.map fun (left, right) =>
    "  " ++ String.ofList (left.toList.rightpad width ' ') ++ "  " ++ right ++ "\n")

/-- What the help command does, in one line. -/
def helpAbout : String :=
  "Print this message or the help of the given subcommand(s)"

/-- The row of an option. -/
def optionRow (o : OptionSpec) : String × String :=
  (match o.short with
    | some c => "-" ++ String.singleton c ++ ", " ++ o.shape
    | none => "    " ++ o.shape, o.about)

/-- The row of the help option. -/
def helpRow : String × String := ("-h, --help", "Print help")

/-- The row of the version option. -/
def versionRow : String × String := ("-V, --version", "Print version")

/-- How a leaf is written after its name. -/
def leafUsage (options : List OptionSpec) : String :=
  (if options.all OptionSpec.isRequired then "" else " [OPTIONS]")
    ++ String.join ((options.filter OptionSpec.isRequired).map fun o => " " ++ o.shape)

/-- The help text of a command that is called by the words of `line`. -/
def help {α : Type} (line : List String) : CommandSpec α → String
  | .group _ about version alone children =>
    about ++ "\n\nUsage: " ++ " ".intercalate line
      ++ (if alone.isSome then " [COMMAND]" else " <COMMAND>")
      ++ "\n\nCommands:\n"
      ++ table (children.map (fun c => (c.name, c.about)) ++ [("help", helpAbout)])
      ++ "\nOptions:\n"
      ++ table (helpRow :: (if version.isSome then [versionRow] else []))
  | .leaf _ about options _ =>
    about ++ "\n\nUsage: " ++ " ".intercalate line ++ leafUsage options
      ++ "\n\nOptions:\n" ++ table (options.map optionRow ++ [helpRow])

/-- The help text of the help command of a group. -/
def helpOfHelp (line : List String) : String :=
  helpAbout ++ "\n\nUsage: " ++ " ".intercalate line ++ " help [COMMAND]...\n\nArguments:\n"
    ++ table [("[COMMAND]...", "Print help for the subcommand(s)")]

end ChannelRelay.CommandLine
