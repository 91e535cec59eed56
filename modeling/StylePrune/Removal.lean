import StylePrune.Literal.Cut
import StylePrune.Log
import StylePrune.Path.Normal
import StylePrune.Report
import StylePrune.ScanError

/-!
# Removal

The keys of a list of reports are cut file by file. A file is written only if a key was
cut from it. The first failure ends the removal; what was written up to then stays.
-/

namespace StylePrune.Removal

/-- What a removal amounts to. -/
structure Summary where
  /-- The keys that were asked for. -/
  planned : Nat := 0
  /-- The keys that were cut. -/
  removed : Nat := 0
  /-- The keys that were not there. -/
  missed : Nat := 0
  /-- The times a file was written. -/
  written : Nat := 0
deriving DecidableEq, Repr

/-- Two removals, one after the other. -/
def Summary.add (s t : Summary) : Summary :=
  ⟨s.planned + t.planned, s.removed + t.removed, s.missed + t.missed, s.written + t.written⟩

/-- The keys to cut from one file. -/
structure Job where
  path : Path
  keys : List String
deriving DecidableEq, Repr

/-- The jobs that a list of reports asks for. -/
def jobs (root : Path) (reports : List Report) : List Job :=
  reports.flatMap fun report =>
    report.map fun (file, keys) => ⟨Path.absolutize root ⟨file⟩, keys⟩

/-- What a file's cut amounts to. -/
def summaryOf (job : Job) (cut : Literal.Cut) : Summary :=
  { planned := job.keys.length
    removed := cut.removed.length
    missed := cut.missed.length
    written := if cut.removed.isEmpty then 0 else 1 }

/-- What to tell while a file is cut. -/
def cutEvents (job : Job) (cut : Literal.Cut) : List Log.Event :=
  .removing job.path :: cut.missed.map (.keyMissing · job.path)

/-- Does one job on a disk. -/
def Job.run (marker : List Char) (disk : Disk) (job : Job) :
    Except ScanError (Disk × Summary) × List Log.Event :=
  match disk.readText job.path with
  | .error fault => (.error (.read job.path fault), [.removing job.path])
  | .ok text =>
    let cut := Literal.cutAll marker text job.keys
    if cut.removed.isEmpty then (.ok (disk, summaryOf job cut), cutEvents job cut)
    else
      match disk.write job.path (Text.encode cut.text) with
      | .error fault => (.error (.write job.path fault), cutEvents job cut)
      | .ok disk => (.ok (disk, summaryOf job cut), cutEvents job cut)

/-- How a removal went. -/
structure Outcome where
  /-- The disk afterwards. -/
  disk : Disk
  /-- What was done, or why it ended early. -/
  result : Except ScanError Summary
  events : List Log.Event

/-- Does jobs one after another, up to the first failure. -/
def runJobs (marker : List Char) (disk : Disk) : List Job → Outcome
  | [] => ⟨disk, .ok {}, []⟩
  | job :: jobs =>
    match job.run marker disk with
    | (.error e, events) => ⟨disk, .error e, events⟩
    | (.ok (disk, summary), events) =>
      let rest := runJobs marker disk jobs
      { rest with
        result := rest.result.map summary.add
        events := events ++ rest.events }

/-- Cuts the keys of reports from the files they name. -/
def apply (root : Path) (marker : List Char) (disk : Disk) (reports : List Report) :
    Outcome :=
  runJobs marker disk (jobs root reports)

end StylePrune.Removal
