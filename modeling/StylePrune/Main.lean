import StylePrune.Program

/-!
# The executable

The part of the real disk that a run may look at is copied, the program runs on the copy,
and the files that it changed are written back.
-/

namespace StylePrune.Main

/-- The names on the way to a path. -/
def placeOf (path : Path) : List String :=
  path.components.filterMap fun c => match c with
    | .name name => some name
    | _ => none

/-- The path of a place. -/
def textOf (place : List String) : String :=
  "/" ++ String.intercalate "/" place

/-- The places on the way to a place, from the root on. -/
def waysTo (place : List String) : List (List String) :=
  (List.range (place.length + 1)).map place.take

/-- Copies what stands at a place, without what a folder holds. -/
def copyAt (disk : Disk) (place : List String) : IO Disk := do
  if (disk.root.get? place).isSome then
    return disk
  try
    let real ← IO.FS.realPath (textOf place)
    if placeOf ⟨real.toString⟩ ≠ place then
      return ⟨disk.root.put place (.link ⟨real.toString⟩)⟩
    else if ← real.isDir then
      return ⟨disk.root.put place (.folder [])⟩
    else
      return ⟨disk.root.put place (.file (← IO.FS.readBinFile real))⟩
  catch _ => return disk

/-- Copies what stands at a path and on the way to it. -/
def copyPath (disk : Disk) (path : Path) : IO Disk := do
  let place := placeOf path
  let real ←
    try pure (placeOf ⟨(← IO.FS.realPath (textOf place)).toString⟩) catch _ => pure place
  (waysTo real ++ waysTo place).foldlM copyAt disk

/-- Copies the admitted files of a folder. -/
partial def copyEntries (admitted : List String → Bool) (place : List String)
    (entries : Array IO.FS.DirEntry) :
    IO (List (String × Node)) :=
  entries.toList.filterMapM fun entry => do
    let place := place ++ [entry.fileName]
    if admitted place then
      match (← entry.path.symlinkMetadata).type with
      | .dir =>
        let below ← copyEntries admitted place (← entry.path.readDir)
        return some (entry.fileName, .folder below)
      | .file => return some (entry.fileName, .file (← IO.FS.readBinFile entry.path))
      | _ => return none
    else
      return none

/-- Copies a folder with its admitted files. -/
def copyTree (admitted : List String → Bool) (disk : Disk) (path : Path) : IO Disk := do
  let disk ← copyPath disk path
  try
    let real ← IO.FS.realPath path.text
    if ← real.isDir then
      let node := Node.folder (← copyEntries admitted [] (← real.readDir))
      return ⟨disk.root.put (placeOf ⟨real.toString⟩) node⟩
    else
      return disk
  catch _ => return disk

/-- Copies what a run with the given settings may look at. -/
def copyFor (disk : Disk) (cwd : Path) (invocation : CommandLine.Invocation)
    (settings : Settings) : IO Disk := do
  let admitted := match SourceTree.readPatterns settings.options.selection.ignore with
    | .ok globs => SourceTree.isAdmitted globs
    | .error _ => fun _ => false
  let config := (invocation.overrides.config.map fun path => cwd.join ⟨path⟩).getD
    (cwd.join ⟨Settings.defaultFile⟩)
  match invocation.removeJson with
  | some path =>
    let path := Path.absolutize cwd ⟨path⟩
    let disk ← copyPath disk path
    match Report.load disk path with
    | .ok reports =>
      (Removal.jobs settings.options.root reports).foldlM
        (fun disk job => copyPath disk job.path) disk
    | .error _ => return disk
  | none =>
    let folders := invocation.folders.map fun folder => Path.absolutize cwd ⟨folder⟩
    let disk ← (settings.options.root :: folders).foldlM (copyTree admitted) disk
    [config, settings.output].foldlM copyPath disk

/-- The variables that a run looks at. -/
def watchedVariables : List String :=
  ["NO_COLOR", "CLICOLOR", "TERM", "CLICOLOR_FORCE", "FORCE_COLOR", Program.filterVariable]

/-- Copies the part of the real disk that a command line may look at. -/
def copyDisk (cwd : Path) (words : List String) : IO Disk := do
  let empty : Disk := ⟨.folder []⟩
  match CommandLine.parse words with
  | .error _ => return empty
  | .ok invocation =>
    let config := cwd.join ⟨invocation.overrides.config.getD Settings.defaultFile⟩
    let disk ← copyPath empty config
    match Settings.load disk cwd invocation.overrides with
    | .error _ => return disk
    | .ok settings => copyFor disk cwd invocation settings

end StylePrune.Main

/-- Runs the program on the real disk. -/
def main (words : List String) : IO UInt32 := do
  let cwd : StylePrune.Path := ⟨(← IO.FS.realPath ".").toString⟩
  let env ← StylePrune.Main.watchedVariables.filterMapM fun name => do
    return (← IO.getEnv name).map fun value => (name, value)
  let isTerminal ← (← IO.getStdout).isTty
  let disk ← StylePrune.Main.copyDisk cwd words
  let outcome := StylePrune.Program.run disk { words, env, cwd, isTerminal }
  for (place, bytes) in outcome.disk.filesChangedFrom disk do
    IO.FS.writeBinFile (StylePrune.Main.textOf place) bytes
  IO.print outcome.out
  outcome.notes.forM IO.eprintln
  return outcome.code.toUInt32
