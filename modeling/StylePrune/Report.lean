import StylePrune.Json.Basic

/-!
# Reports

A report lists, file by file, the keys that nothing refers to. Files are named as paths
from the root folder where that is possible and are in increasing order.
-/

namespace StylePrune

/-- The unused keys of each file, in increasing order of the files' names. -/
abbrev Report := List (String × List String)

namespace Report

/-- Puts the keys of a file into a report, in place of those that are there. -/
def insert (file : String) (keys : List String) : Report → Report
  | [] => [(file, keys)]
  | (f, ks) :: rest =>
    if file < f then (file, keys) :: (f, ks) :: rest
    else if file = f then (f, keys) :: rest
    else (f, ks) :: insert file keys rest

/-- The report with the given files; later ones win. -/
def ofList (pairs : List (String × List String)) : Report :=
  pairs.foldl (fun report (file, keys) => report.insert file keys) []

/-- The number of unused keys. -/
def unused (report : Report) : Nat :=
  (report.map fun (_, keys) => keys.length).foldr (· + ·) 0

/-- A report as a value to be written. -/
def toJson (report : Report) : Json.Value :=
  .object (report.map fun (file, keys) => (file, .list (keys.map .text)))

/-- The text of a list of reports in a file. -/
def write (reports : List Report) : List Char :=
  (Json.Value.list (reports.map toJson)).spread 0

end Report

end StylePrune
