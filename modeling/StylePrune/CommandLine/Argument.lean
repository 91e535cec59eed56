import StylePrune.Color
import StylePrune.Settings

/-!
# Arguments

What the command line may hold: folders, options with a value, and flags. Each argument
has the name it is given by, and the words in which it is shown to the user.
-/

namespace StylePrune.CommandLine

/-- The name of the program. -/
def program : String := "unused-styles"

/-- The version of the program. -/
def version : String := "0.1.0"

/-- What the program is for. -/
def about : String := "Find and remove unused StyleSheet keys in JS/TS projects"

/-- An argument of the program. -/
inductive Argument where
  | folders
  | remove
  | removeJson
  | root
  | output
  | config
  | format
  | color
  | verbose
  | quiet
  | help
  | version
deriving DecidableEq, Repr

namespace Argument

/-- The arguments that are given by a name, in the order they are listed. -/
def named : List Argument :=
  [.remove, .removeJson, .root, .output, .config, .format, .color, .verbose, .quiet, .help,
    .version]

/-- The name of an argument. -/
def name : Argument → String
  | .folders => "folders"
  | .remove => "remove"
  | .removeJson => "remove-json"
  | .root => "root"
  | .output => "output"
  | .config => "config"
  | .format => "format"
  | .color => "color"
  | .verbose => "verbose"
  | .quiet => "quiet"
  | .help => "help"
  | .version => "version"

/-- The letter that stands for a name. -/
def letter? : Argument → Option Char
  | .verbose => some 'v'
  | .quiet => some 'q'
  | .help => some 'h'
  | .version => some 'V'
  | _ => none

/-- The word that stands for an option's value. -/
def placeholder? : Argument → Option String
  | .removeJson => some "PATH"
  | .root => some "ROOT"
  | .output => some "OUTPUT"
  | .config => some "CONFIG"
  | .format => some "FORMAT"
  | .color => some "COLOR"
  | _ => none

/-- The values that an option is restricted to; none when it is not. -/
def choices : Argument → List String
  | .format => Format.all.map Format.name
  | .color => Color.Policy.all.map Color.Policy.name
  | _ => []

/-- What an argument does. -/
def description : Argument → String
  | .folders => "Folders whose style tables are checked"
  | .remove => "Delete the unused keys instead of writing the report"
  | .removeJson => "Delete the keys listed in a previously written report"
  | .root => "Project root; imports and report paths are relative to it"
  | .output => "Report file written when not removing"
  | .config => "Path to config file"
  | .format => "Output format"
  | .color => "Color policy"
  | .verbose => "Debug logging on stderr"
  | .quiet => "Only log errors"
  | .help => "Print help"
  | .version => "Print version"

/-- Whether an argument is an option with a value. -/
def takesValue (argument : Argument) : Bool :=
  argument.placeholder?.isSome

/-- How an argument is shown. -/
def usage (argument : Argument) : String :=
  match argument, argument.placeholder? with
  | .folders, _ => "[FOLDERS]..."
  | argument, some placeholder => "--" ++ argument.name ++ " <" ++ placeholder ++ ">"
  | argument, none => "--" ++ argument.name

/-- The argument with a name. -/
def ofName? (name : String) : Option Argument :=
  named.find? (·.name == name)

/-- The argument with a letter. -/
def ofLetter? (letter : Char) : Option Argument :=
  named.find? (·.letter? == some letter)

/-- The arguments that an argument excludes. -/
def excludes : Argument → List Argument
  | .removeJson => [.folders, .remove]
  | .verbose => [.quiet]
  | _ => []

/-- Whether two arguments cannot be given together. -/
def conflictsWith (a b : Argument) : Bool :=
  b ∈ a.excludes || a ∈ b.excludes

end Argument

/-- Why a command line is not carried out as it stands. -/
inductive UsageError where
  /-- Help was asked for. -/
  | help
  /-- The version was asked for. -/
  | version
  | unknown (text : String)
  | missingValue (argument : Argument)
  | invalidValue (argument : Argument) (value : String)
  | extraValue (argument : Argument) (value : String)
  | repeated (argument : Argument)
  | conflict (argument : Argument) (others : List Argument)
deriving DecidableEq, Repr

/-- What is wrong with a command line. -/
def UsageError.message : UsageError → String
  | .help | .version => ""
  | .unknown text => "unexpected argument '" ++ text ++ "' found"
  | .missingValue argument =>
    "a value is required for '" ++ argument.usage ++ "' but none was supplied"
  | .invalidValue argument value =>
    "invalid value '" ++ value ++ "' for '" ++ argument.usage ++ "'"
  | .extraValue argument value =>
    "unexpected value '" ++ value ++ "' for '" ++ argument.usage ++
      "' found; no more were expected"
  | .repeated argument =>
    "the argument '" ++ argument.usage ++ "' cannot be used multiple times"
  | .conflict argument [other] =>
    "the argument '" ++ argument.usage ++ "' cannot be used with '" ++ other.usage ++ "'"
  | .conflict argument others =>
    String.intercalate "\n  "
      (("the argument '" ++ argument.usage ++ "' cannot be used with:") ::
        others.map Argument.usage)

end StylePrune.CommandLine
