import StylePrune.Disk
import StylePrune.Glob.Read
import StylePrune.Json.Read

/-!
# Failures

What can stop an analysis or a removal, each with the underlying cause where there is one.
-/

namespace StylePrune

/-- Why an analysis or a removal stopped. -/
inductive ScanError where
  /-- A file or folder could not be read. -/
  | read (path : Path) (fault : Disk.Fault)
  /-- A file could not be written. -/
  | write (path : Path) (fault : Disk.Fault)
  /-- A folder to be loaded is a file. -/
  | notFolder (path : Path)
  /-- A text among the patterns to ignore is no pattern. -/
  | pattern (text : String) (fault : Glob.Fault)
  /-- The text of a file is no list of reports. -/
  | report (path : Path) (text : List Char) (fault : Json.Fault)
deriving DecidableEq, Repr

namespace ScanError

/-- What went wrong. -/
def message : ScanError → String
  | .read path _ => "failed reading " ++ path.text
  | .write path _ => "failed writing " ++ path.text
  | .notFolder path => path.text ++ " is not a directory"
  | .pattern text _ => "invalid ignore pattern: " ++ text
  | .report path .. => "failed parsing report " ++ path.text

/-- Why it went wrong. -/
def cause? : ScanError → Option String
  | .read _ fault | .write _ fault => some fault.message
  | .notFolder _ => none
  | .pattern text fault => some (fault.message text)
  | .report _ text fault => some (fault.message text)

end ScanError

end StylePrune
