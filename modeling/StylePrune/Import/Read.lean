import StylePrune.Import.Lines
import StylePrune.Log
import StylePrune.Script.Grammar

/-!
# Reading the imports of a file

A file whose name says it is a script is read by the script grammar. Other files, and
scripts with a syntax error, are read by the line scanner. The analysis does not depend on
how directives are found: it takes any `Reader`, and the program gives it `read`.
-/

namespace StylePrune.Import

/-- A way to find the directives of a file, and what to tell about it. -/
abbrev Reader := Path → List Char → List Directive × List Log.Event

/-- The directives of a file, and what to tell about it. -/
def read (file : Path) (text : List Char) : List Directive × List Log.Event :=
  if Text.contains "import".toList text then
    match Script.Dialect.ofPath? file with
    | none => (lineDirectives text, [])
    | some dialect =>
      match Script.directives? dialect text with
      | some directives => (directives, [])
      | none => (lineDirectives text, [.gaveUp file])
  else
    ([], [])

end StylePrune.Import
