import ChannelRelay.CommandLine.Help

/-!
# Reading a command line

The words name a command, group by group, and then its options.  A value follows
its option as the next word or is attached to it.  An option is settled when the
next one begins or the words end: only then is its value looked at, so a word that
has no place is reported before a bad value that stands in front of it.
-/

namespace ChannelRelay.CommandLine

/-- What is wrong with a command line. -/
inductive UsageError where
  /-- A word that has no place where it stands. -/
  | unknownArgument
  /-- A word in the place of a command that names none. -/
  | invalidCommand
  /-- A required option is missing. -/
  | missingOption
  /-- A value is not of its kind. -/
  | badValue
  /-- An option has no value. -/
  | missingValue
  /-- An option is given twice. -/
  | repeatedOption
  /-- A value is attached to an option that takes none. -/
  | needlessValue
  /-- A group that means nothing without a command stands alone. -/
  | missingCommand
deriving DecidableEq, Repr

/-- Why a command line is no invocation. -/
inductive Stop where
  /-- A help text is asked for. -/
  | help (text : String)
  /-- The version is asked for. -/
  | version (text : String)
  | fault (error : UsageError)
deriving DecidableEq, Repr

/-- The form of a word. -/
inductive Word where
  /-- Two dashes: no options follow. -/
  | separator
  /-- Two dashes and a name, and what follows an `=`. -/
  | long (name : String) (value : Option String)
  /-- A dash and a letter, and what follows it. -/
  | short (letter : Char) (rest : List Char)
  | plain
deriving DecidableEq, Repr

/-- What stands after the first `=`. -/
def attached? (cs : List Char) : Option String :=
  match cs.dropWhile (· != '=') with
  | [] => none
  | _ :: value => some (String.ofList value)

/-- The form of a word; a single dash is plain. -/
def Word.of (word : String) : Word :=
  match word.toList with
  | ['-', '-'] => .separator
  | '-' :: '-' :: cs => .long (String.ofList (cs.takeWhile (· != '='))) (attached? cs)
  | '-' :: letter :: rest => .short letter rest
  | _ => .plain

/-- What has been read of the options of a leaf. -/
structure Reading where
  /-- The settled options. -/
  values : Values
  /-- The option that is not settled, with its value if that was read. -/
  pending : Option (OptionSpec × Option String)

namespace Reading

/-- Nothing has been read. -/
def start : Reading := ⟨[], none⟩

/-- The option that waits for its value, if there is one. -/
def awaiting? (r : Reading) : Option OptionSpec :=
  match r.pending with
  | some (o, none) => some o
  | _ => none

/-- Settles an option with its value. -/
def accept (r : Reading) (o : OptionSpec) (value : String) : Except Stop Reading :=
  if (r.values.text? o.long).isSome then .error (.fault .repeatedOption)
  else if o.kind.accepts value then .ok ⟨r.values ++ [(o.long, value)], none⟩
  else .error (.fault .badValue)

/-- Settles the pending option. -/
def settle (r : Reading) : Except Stop Reading :=
  match r.pending with
  | none => .ok r
  | some (_, none) => .error (.fault .missingValue)
  | some (o, some value) => r.accept o value

/-- Begins an option, with its value if that is attached. -/
def begin (r : Reading) (o : OptionSpec) (value : Option String) : Except Stop Reading := do
  let r ← r.settle
  match value with
  | some value => r.accept o value
  | none => return ⟨r.values, some (o, none)⟩

/-- Ends with a help text, once the pending option is settled. -/
def help {α : Type} (r : Reading) (text : String) : Except Stop α := do
  let _ ← r.settle
  throw (.help text)

/-- The value attached to a letter, if there is one. -/
def shortValue? : List Char → Option String
  | [] => none
  | '=' :: value => some (String.ofList value)
  | value => some (String.ofList value)

/-- Reads a word of a leaf. -/
def step (helpText : String) (options : List OptionSpec) (r : Reading) (word : String) :
    Except Stop Reading :=
  match Word.of word with
  | .separator => .ok r
  | .plain =>
    match r.awaiting? with
    | some o => .ok ⟨r.values, some (o, some word)⟩
    -- A leaf takes no words but its options.
    | none => .error (.fault .unknownArgument)
  | .long name value =>
    match options.find? (·.long == name) with
    | some o => r.begin o value
    | none =>
      if name != "help" then .error (.fault .unknownArgument)
      else if value.isSome then .error (.fault .needlessValue)
      else r.help helpText
  | .short letter rest =>
    match options.find? (·.short == some letter) with
    | some o => r.begin o (shortValue? rest)
    | none => if letter = 'h' then r.help helpText else .error (.fault .unknownArgument)

/-- The values of the options, of which none may be missing that is required. -/
def finish (options : List OptionSpec) (r : Reading) : Except Stop Values := do
  let r ← r.settle
  if options.any fun o => o.isRequired && (r.values.text? o.long).isNone then
    throw (.fault .missingOption)
  return r.values

/-- Reads the words of a leaf. -/
def run (helpText : String) (options : List OptionSpec) (r : Reading) :
    List String → Except Stop Values
  | [] => r.finish options
  | word :: rest =>
    if Word.of word = .separator then
      if rest.isEmpty then r.finish options else .error (.fault .unknownArgument)
    else
      match r.step helpText options word with
      | .error stop => .error stop
      | .ok r => r.run helpText options rest

end Reading

/-- The help that the help command of a group gives for the words after it. -/
def helpFor {α : Type} (line : List String) (c : CommandSpec α) : List String → Stop
  | [] => .help (help line c)
  | word :: rest =>
    match CommandSpec.find? word c.children with
    | some child => helpFor (line ++ [word]) child rest
    | none =>
      if word = "help" && !c.children.isEmpty && rest.isEmpty then .help (helpOfHelp line)
      else .fault .invalidCommand

/-- Why a word of a group that is no command has no place. -/
def groupStop {α : Type} (line : List String) (c : CommandSpec α) (version : Option String)
    (word : String) : Stop :=
  match Word.of word with
  | .long name value =>
    if name = "help" then
      if value.isSome then .fault .needlessValue else .help (help line c)
    else
      match version with
      | some text =>
        if name != "version" then .fault .unknownArgument
        else if value.isSome then .fault .needlessValue
        else .version text
      | none => .fault .unknownArgument
  | .short letter _ =>
    if letter = 'h' then .help (help line c)
    else
      match version with
      | some text => if letter = 'V' then .version text else .fault .unknownArgument
      | none => .fault .unknownArgument
  | _ => .fault .invalidCommand

/-- Reads the words of a command that was called by the words of `line`. -/
def readFrom {α : Type} (line : List String) (c : CommandSpec α) (words : List String) :
    Except Stop α :=
  let standsAlone (alone : Option α) : Except Stop α :=
    match alone with
    | some a => .ok a
    | none => .error (.fault .missingCommand)
  match c with
  | .leaf name about options build =>
    (Reading.start.run (help line (.leaf name about options build)) options words).map build
  | .group name about version alone children =>
    match words with
    | [] => standsAlone alone
    | word :: rest =>
      match _hchild : CommandSpec.find? word children with
      | some child => readFrom (line ++ [word]) child rest
      | none =>
        let group := CommandSpec.group name about version alone children
        if word = "help" then .error (helpFor line group rest)
        -- After a separator there are no commands, not even by their names.
        else if Word.of word = .separator then
          match rest with
          | [] => standsAlone alone
          | next :: _ =>
            if next = "help" || (CommandSpec.find? next children).isSome then
              .error (.fault .unknownArgument)
            else .error (.fault .invalidCommand)
        else .error (groupStop line group version word)
termination_by c
decreasing_by
  have := CommandSpec.find?_shorter (by assumption)
  simp only [CommandSpec.group.sizeOf_spec]
  omega

/-- The invocation that the words after the name of a program are. -/
def read {α : Type} (c : CommandSpec α) (words : List String) : Except Stop α :=
  readFrom [c.name] c words

end ChannelRelay.CommandLine
