import StylePrune.CommandLine.Help
import StylePrune.CommandLine.Parse
import StylePrune.Display
import StylePrune.Log.Filter
import StylePrune.Report.File

/-!
# The program

A run takes the words of the command line, the environment, the working folder and the
disk, and gives what it prints, what it tells besides, its exit code and the disk
afterwards. It either prints help, reports on folders and saves the reports, reports on
folders and removes what it found, or removes what a saved report lists.
-/

namespace StylePrune.Program

/-- What a run starts from. -/
structure Request where
  words : List String
  env : Environment
  /-- The working folder. -/
  cwd : Path
  /-- Whether the output goes to a terminal. -/
  isTerminal : Bool := false
deriving DecidableEq, Repr

/-- Why a run fails. -/
inductive Failure where
  | settings (fault : Settings.Fault)
  | scan (error : ScanError)
deriving DecidableEq, Repr

namespace Failure

/-- What went wrong. -/
def message : Failure → String
  | .settings fault => fault.message
  | .scan error => error.message

/-- Why it went wrong. -/
def cause? : Failure → Option String
  | .settings fault => fault.cause?
  | .scan error => error.cause?

/-- The line that tells a failure. -/
def line (failure : Failure) : String :=
  match failure.cause? with
  | some cause => "error: " ++ failure.message ++ ": " ++ cause
  | none => "error: " ++ failure.message

end Failure

/-- What a run did. -/
structure Course where
  /-- What was printed. -/
  out : String := ""
  events : List Log.Event := []
  failure : Option Failure := none
  /-- The disk afterwards. -/
  disk : Disk

namespace Course

/-- A run that fails without a trace. -/
def failed (disk : Disk) (failure : Failure) : Course :=
  { failure := some failure, disk }

/-- Puts what came first in front of what a run did. -/
def behind (course : Course) (out : String) (events : List Log.Event) : Course :=
  { course with out := out ++ course.out, events := events ++ course.events }

/-- Prints a line at the end of a run that did not fail. -/
def closedBy (course : Course) (line : String) : Course :=
  match course.failure with
  | none => { course with out := course.out ++ line }
  | some _ => course

end Course

/-- What is known of a list of folders. -/
structure Study where
  out : String
  events : List Log.Event
  result : Except ScanError (List FolderReport)

/-- Reports on folders one after another and prints a line for each, up to the first
failure. -/
def study (disk : Disk) (options : Options) (style : Display.Style) (cwd : Path)
    (snapshot : Snapshot) (folders : List String) (reader : Import.Reader := Import.read) :
    Study :=
  match folders with
  | [] => ⟨"", [], .ok []⟩
  | folder :: folders =>
    let place := Path.absolutize cwd ⟨folder⟩
    match Analysis.folderReport disk options snapshot place reader with
    | (.error e, events) => ⟨"", events, .error e⟩
    | (.ok found, events) =>
      let rest := study disk options style cwd snapshot folders reader
      { out := Display.folder style folder found.unused found.checked ++ rest.out
        events := events ++ rest.events
        result := rest.result.map (found :: ·) }

/-- Removes the keys of reports. -/
def removeAll (disk : Disk) (settings : Settings) (style : Display.Style)
    (reports : List Report) : Course :=
  let outcome :=
    Removal.apply settings.options.root settings.options.marker.toList disk reports
  let { events, disk, .. } := outcome
  match outcome.result with
  | .error e => { events, failure := some (.scan e), disk }
  | .ok summary => { out := Display.summary style summary, events, disk }

/-- Saves reports. -/
def saveAll (disk : Disk) (settings : Settings) (style : Display.Style)
    (reports : List Report) : Course :=
  match Report.save disk settings.output reports with
  | .error e => .failed disk (.scan e)
  | .ok disk => { out := Display.saved style settings.output, disk }

/-- Removes what a saved report lists. -/
def runReport (disk : Disk) (settings : Settings) (style : Display.Style) (path : Path) :
    Course :=
  match Report.load disk path with
  | .error e => .failed disk (.scan e)
  | .ok reports => removeAll disk settings style reports

/-- Reports on folders, and removes what was found or saves the reports. -/
def runFolders (disk : Disk) (settings : Settings) (style : Display.Style) (cwd : Path)
    (remove : Bool) (folders : List String) (reader : Import.Reader := Import.read) :
    Course :=
  match Snapshot.take disk settings.options reader with
  | (.error e, events) => (Course.failed disk (.scan e)).behind "" events
  | (.ok snapshot, events) =>
    let studied := study disk settings.options style cwd snapshot folders reader
    match studied.result with
    | .error e =>
      (Course.failed disk (.scan e)).behind studied.out (events ++ studied.events)
    | .ok found =>
      let reports := found.map FolderReport.report
      let course :=
        if remove then removeAll disk settings style reports
        else saveAll disk settings style reports
      let total := (reports.map Report.unused).foldr (· + ·) 0
      (course.closedBy (Display.total style total)).behind studied.out
        (events ++ studied.events)

/-- Carries out what a command line asks for. -/
def carryOut (disk : Disk) (request : Request) (invocation : CommandLine.Invocation)
    (reader : Import.Reader := Import.read) : Course :=
  match Settings.load disk request.cwd invocation.overrides with
  | .error fault => .failed disk (.settings fault)
  | .ok settings =>
    let style : Display.Style :=
      ⟨settings.format, settings.color.enabled request.isTerminal request.env⟩
    match invocation.removeJson, invocation.folders with
    | some path, _ => runReport disk settings style (Path.absolutize request.cwd ⟨path⟩)
    | none, [] => { out := CommandLine.helpPage ++ "\n", disk }
    | none, folders =>
      runFolders disk settings style request.cwd invocation.remove folders reader

/-- The variable that holds the log filter. -/
def filterVariable : String := "RUST_LOG"

/-- Which events a run shows. -/
def filterFor (env : Environment) (invocation : CommandLine.Invocation) : Log.Filter :=
  let level : Log.Level :=
    if invocation.quiet then .error else if invocation.verbose then .debug else .info
  ((env.lookup filterVariable).bind Log.Filter.ofText?).getD (Log.Filter.ofLevel level)

/-- What a run leaves behind. -/
structure Outcome where
  /-- The exit code. -/
  code : Nat
  /-- What was printed. -/
  out : String
  /-- What was told besides, line by line. -/
  notes : List String
  /-- The disk afterwards. -/
  disk : Disk

/-- Runs the program. -/
def run (disk : Disk) (request : Request) (reader : Import.Reader := Import.read) :
    Outcome :=
  if CommandLine.asksForSchema request.words then
    ⟨0, String.ofList CommandLine.schema.compact ++ "\n", [], disk⟩
  else
    match CommandLine.parse request.words with
    | .error .help => ⟨0, CommandLine.helpPage, [], disk⟩
    | .error .version => ⟨0, CommandLine.versionLine, [], disk⟩
    | .error e => ⟨2, "", ["error: " ++ e.message], disk⟩
    | .ok invocation =>
      let course := carryOut disk request invocation reader
      let filter := filterFor request.env invocation
      let shown := (course.events.filter filter.shows).map Log.Event.line
      match course.failure with
      | some failure => ⟨1, course.out, shown ++ [failure.line], course.disk⟩
      | none => ⟨0, course.out, shown, course.disk⟩

end StylePrune.Program
