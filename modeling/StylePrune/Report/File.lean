import StylePrune.Report.Read
import StylePrune.ScanError

/-!
# Report files

Reports are kept in a file between an analysis and a removal.
-/

namespace StylePrune.Report

/-- The name of the report file unless another is chosen. -/
def defaultFile : String := "unused-styles.json"

/-- Writes reports into a file. -/
def save (disk : Disk) (path : Path) (reports : List Report) : Except ScanError Disk :=
  match disk.write path (Text.encode (write reports)) with
  | .error fault => .error (.write path fault)
  | .ok disk => .ok disk

/-- Reads the reports of a file. -/
def load (disk : Disk) (path : Path) : Except ScanError (List Report) :=
  match disk.readText path with
  | .error fault => .error (.read path fault)
  | .ok text =>
    match read text with
    | .error fault => .error (.report path text fault)
    | .ok reports => .ok reports

end StylePrune.Report
