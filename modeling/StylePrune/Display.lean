import StylePrune.Analysis
import StylePrune.Removal
import StylePrune.Settings

/-!
# What is printed

Each result is one line. Lines for people may be coloured; lines for programs are compact
JSON objects with their members in increasing order of names.
-/

namespace StylePrune.Display

/-- How lines are printed. -/
structure Style where
  format : Format
  colored : Bool
deriving DecidableEq, Repr

/-- A line for programs. -/
def jsonLine (members : List (String × Json.Value)) : String :=
  String.ofList ((Json.Value.object members).compact ++ ['\n'])

/-- A heading of a line for people. -/
def heading (style : Style) (text : String) : String :=
  if style.colored then Color.tinted .cyan (Color.bold text) else text

/-- The line of a folder. -/
def folder (style : Style) (name : String) (unused checked : Nat) : String :=
  match style.format with
  | .ai => jsonLine [("f", .text name), ("n", .number unused), ("s", .number checked)]
  | .human =>
    if style.colored then
      Color.tinted .blue name ++ " " ++ Color.tinted .yellow (toString unused) ++ "\n"
    else name ++ " " ++ toString unused ++ "\n"

/-- The line of the number of unused keys in all folders. -/
def total (style : Style) (unused : Nat) : String :=
  match style.format with
  | .ai => jsonLine [("t", .number unused)]
  | .human => heading style ">Total Unused styles:" ++ " " ++ toString unused ++ "\n"

/-- The line that tells where the report is. -/
def saved (style : Style) (path : Path) : String :=
  match style.format with
  | .ai => jsonLine [("w", .text path.text)]
  | .human => "Report written to " ++ path.text ++ "\n"

/-- The line of a removal. -/
def summary (style : Style) (s : Removal.Summary) : String :=
  match style.format with
  | .ai =>
    jsonLine [("files", .number s.written), ("missed", .number s.missed),
      ("planned", .number s.planned), ("removed", .number s.removed)]
  | .human =>
    heading style "Remove summary" ++ " planned=" ++ toString s.planned ++
      " removed=" ++ toString s.removed ++ " missed=" ++ toString s.missed ++
      " files=" ++ toString s.written ++ "\n"

end StylePrune.Display
