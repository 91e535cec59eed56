import StylePrune.Color
import StylePrune.Disk
import StylePrune.Import.Directive
import StylePrune.Report.File
import StylePrune.Snapshot
import StylePrune.Text.Quoted
import StylePrune.Toml.Basic

/-!
# Settings

What a run works with is taken from the command line, then from a settings file, then
from defaults. Relative paths are taken from the working folder.
-/

namespace StylePrune

/-- How results are printed. -/
inductive Format where
  /-- Lines for people. -/
  | human
  /-- Lines for programs. -/
  | ai
deriving DecidableEq, Repr

namespace Format

/-- All formats, in the order they are listed to the user. -/
def all : List Format := [.human, .ai]

/-- The name of a format. -/
def name : Format → String
  | .human => "human"
  | .ai => "ai"

/-- The format with a name. -/
def ofName? (name : String) : Option Format :=
  all.find? (·.name == name)

end Format

/-- What the command line may say about a run's settings. -/
structure Overrides where
  root : Option String := none
  output : Option String := none
  config : Option String := none
  format : Option Format := none
  color : Option Color.Policy := none
deriving DecidableEq, Repr

/-- What a settings file may say. -/
structure FileSettings where
  root : Option String := none
  marker : Option String := none
  rootAlias : Option String := none
  ignore : Option (List String) := none
  maxDepth : Option Nat := none
  output : Option String := none
  localUsage : Option Bool := none
  format : Option String := none
  color : Option String := none
deriving DecidableEq, Repr

namespace FileSettings

/-- Enters a pair of a settings file. Unknown keys and values of another kind are
refused. -/
def enter? (s : FileSettings) : String × Toml.Value → Option FileSettings
  | ("root", .text v) => some { s with root := v }
  | ("open_marker", .text v) => some { s with marker := v }
  | ("root_alias", .text v) => some { s with rootAlias := v }
  | ("ignore", .texts v) => some { s with ignore := v }
  | ("max_depth", .number v) => some { s with maxDepth := v }
  | ("output", .text v) => some { s with output := v }
  | ("local_usage", .flag v) => some { s with localUsage := v }
  | ("format", .text v) => some { s with format := v }
  | ("color", .text v) => some { s with color := v }
  | _ => none

/-- The settings that a text stands for. -/
def read? (text : List Char) : Option FileSettings :=
  match Toml.read? text with
  | some pairs => pairs.foldlM enter? {}
  | none => none

end FileSettings

/-- What a run works with. -/
structure Settings where
  options : Options
  /-- The report file. -/
  output : Path
  format : Format
  color : Color.Policy
deriving DecidableEq, Repr

namespace Settings

/-- Why there are no settings. -/
inductive Fault where
  /-- The settings file could not be read. -/
  | unreadable (path : Path) (fault : Disk.Fault)
  /-- The settings file is not in order. -/
  | malformed (path : Path)
  /-- The marker does not end with an opening brace. -/
  | badMarker (marker : String)
deriving DecidableEq, Repr

/-- What is wrong with the settings. -/
def Fault.message : Fault → String
  | .unreadable path _ => "failed reading config " ++ path.text
  | .malformed path => "failed parsing config " ++ path.text
  | .badMarker marker =>
    "open_marker must end with '" ++ '{'.toString ++ "', got " ++ Text.quoted marker

/-- The cause behind a fault. -/
def Fault.cause? : Fault → Option String
  | .unreadable _ fault => some fault.message
  | .malformed _ | .badMarker _ => none

/-- The name of the settings file unless another is chosen. -/
def defaultFile : String := "unused-styles.toml"

/-- The settings file: the one that was asked for, or the one in the working folder if it
is there. -/
def file? (disk : Disk) (cwd : Path) (overrides : Overrides) : Option Path :=
  match overrides.config with
  | some path => some ⟨path⟩
  | none =>
    let path := cwd.join ⟨defaultFile⟩
    if disk.isPresent path then some path else none

/-- Reads the settings file, if there is one. -/
def readFile (disk : Disk) (cwd : Path) (overrides : Overrides) :
    Except Fault FileSettings :=
  match file? disk cwd overrides with
  | none => .ok {}
  | some path =>
    match disk.readText (cwd.join path) with
    | .error fault => .error (.unreadable path fault)
    | .ok text =>
      match FileSettings.read? text with
      | none => .error (.malformed path)
      | some settings => .ok settings

/-- Joins what the command line and the settings file say with the defaults. -/
def merge (cwd : Path) (overrides : Overrides) (file : FileSettings) :
    Except Fault Settings :=
  let marker := file.marker.getD Literal.defaultMarker
  if marker.toList.getLast? = some '{' then
    let path (text : String) : Path := Path.absolutize cwd ⟨text⟩
    .ok {
      options := {
        root := path ((overrides.root.or file.root).getD ".")
        marker := marker
        rootAlias := file.rootAlias.getD Import.defaultAlias
        localUsage := file.localUsage.getD true
        selection := {
          ignore := Names.ofList (file.ignore.getD SourceTree.defaultIgnore)
          maxDepth := file.maxDepth.getD SourceTree.defaultDepth } }
      output := path ((overrides.output.or file.output).getD Report.defaultFile)
      format := (overrides.format.or (file.format.bind Format.ofName?)).getD .human
      color := (overrides.color.or (file.color.bind Color.Policy.ofName?)).getD .auto }
  else
    .error (.badMarker marker)

/-- The settings of a run. -/
def load (disk : Disk) (cwd : Path) (overrides : Overrides) : Except Fault Settings :=
  match readFile disk cwd overrides with
  | .error fault => .error fault
  | .ok file => merge cwd overrides file

end Settings

end StylePrune
