import StylePrune.CommandLine.Argument
import StylePrune.Json.Basic

/-!
# Help

The arguments are described in two ways: as a page for people, and as a JSON object for
programs.
-/

namespace StylePrune.CommandLine

/-- How the program is called. -/
def usageLine : String := program ++ " [OPTIONS] [FOLDERS]..."

/-- How a named argument is shown on the help page. -/
def Argument.label (argument : Argument) : String :=
  match argument.letter? with
  | some letter => "  -" ++ letter.toString ++ ", " ++ argument.usage
  | none => "      " ++ argument.usage

/-- What the help page says about an argument. -/
def Argument.note (argument : Argument) : String :=
  match argument.choices with
  | [] => argument.description
  | choices =>
    argument.description ++ " [possible values: " ++ String.intercalate ", " choices ++ "]"

/-- A text filled up with blanks to a given length. -/
def padded (width : Nat) (text : String) : String :=
  text ++ String.ofList (List.replicate (width - text.length) ' ')

/-- The help page. -/
def helpPage : String :=
  let width := (Argument.named.map fun a => a.label.length).foldl max 0
  let option (argument : Argument) : String :=
    padded width argument.label ++ "  " ++ argument.note
  String.intercalate "\n" ([
    about,
    "",
    "Usage: " ++ usageLine,
    "",
    "Arguments:",
    "  " ++ Argument.folders.usage ++ "  " ++ Argument.folders.note,
    "",
    "Options:"] ++ Argument.named.map option) ++ "\n"

/-- The line that tells the version. -/
def versionLine : String := program ++ " " ++ version ++ "\n"

/-- The kind of value that an argument has. -/
def Argument.kind (argument : Argument) : String :=
  match argument with
  | .folders => "path[]"
  | argument =>
    if !argument.takesValue then "bool"
    else if argument.choices = [] then "path"
    else "string"

/-- An argument as a JSON object. -/
def Argument.toJson (argument : Argument) : Json.Value :=
  .object [
    ("name", .text argument.name),
    ("short", match argument.letter? with | some c => .text c.toString | none => .null),
    ("type", .text argument.kind),
    ("default", if argument.kind = "bool" then .text "false" else .null),
    ("required", .bool false),
    ("enum", if argument.choices = [] then .null else .list (argument.choices.map .text)),
    ("desc", .text argument.description)]

/-- Some ways to call the program. -/
def examples : List String :=
  [program ++ " app", program ++ " app lib --format ai", program ++ " app --remove",
    program ++ " --remove-json unused-styles.json"]

/-- The exit codes and what they mean. -/
def exitCodes : List (Nat × String) :=
  [(0, "Success"), (1, "I/O failure, invalid config or malformed report"),
    (2, "Invalid CLI usage")]

/-- The program as a JSON object. -/
def schema : Json.Value :=
  .object [
    ("n", .text program),
    ("d", .text about),
    ("u", .text usageLine),
    ("a", .list [Argument.folders.toJson]),
    ("f", .list
      ((Argument.named.filter fun a => a ≠ .help ∧ a ≠ .version).map Argument.toJson)),
    ("e", .list (examples.map .text)),
    ("x", .list (exitCodes.map fun (code, meaning) =>
      .object [("code", .number code), ("meaning", .text meaning)]))]

/-- Whether neighbouring words of a command line choose the format for programs. -/
def choosesAi : List String → Bool
  | "--format" :: "ai" :: _ => true
  | word :: words => word == "--format=ai" || choosesAi words
  | [] => false

/-- Whether a command line asks for the JSON object, whatever else it holds. -/
def asksForSchema (words : List String) : Bool :=
  (words.contains "--help" || words.contains "-h") && choosesAi words

end StylePrune.CommandLine
