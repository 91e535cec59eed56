import StylePrune.Report
import StylePrune.Snapshot
import StylePrune.Usage

/-!
# The analysis

A key of a style file is used when a file that imports the style file refers to it under
one of the names that are bound there, or when the style file does so itself under the
name its literal is bound to. The report of a folder lists the keys of the style files in
it that are not used anywhere in the project.

A folder inside the root folder is looked up in the snapshot. A folder outside is loaded
by itself, and its style files are compared with the imports of the project.
-/

namespace StylePrune

/-- What was found in a folder. -/
structure FolderReport where
  /-- The folder as it was asked for. -/
  folder : Path
  report : Report
  /-- The number of style files that were looked at. -/
  checked : Nat
deriving DecidableEq, Repr

/-- The number of unused keys in a folder. -/
def FolderReport.unused (found : FolderReport) : Nat :=
  found.report.unused

namespace Analysis

/-- The keys that an import's file refers to under the import's names. -/
def usedThrough (tree : SourceTree) (keys : List String) (binding : Import.Binding) :
    List String :=
  match tree.get? binding.file with
  | some text => binding.aliases.flatMap fun name => Usage.usedKeys name keys text
  | none => []

/-- The keys that a style file refers to under the name of its own literal. -/
def usedLocally (style : StyleFile) : List String :=
  match style.table.binding with
  | some name => Usage.usedKeys name style.table.keys style.residual
  | none => []

/-- The keys of a style file that something refers to. -/
def usedKeys (options : Options) (tree : SourceTree) (bindings : List Import.Binding)
    (style : StyleFile) : List String :=
  (Import.bindingsFor bindings style.table.file).flatMap
      (usedThrough tree style.table.keys) ++
    if options.localUsage then usedLocally style else []

/-- The keys of a style file that nothing refers to. -/
def unusedKeys (options : Options) (tree : SourceTree) (bindings : List Import.Binding)
    (style : StyleFile) : List String :=
  let used := usedKeys options tree bindings style
  style.table.keys.filter fun key => key ∉ used

/-- Adds the unused keys of a style file to a report. -/
def record (options : Options) (tree : SourceTree) (bindings : List Import.Binding)
    (report : Report) (style : StyleFile) : Report :=
  match unusedKeys options tree bindings style with
  | [] => report
  | keys => report.insert (Path.reportText options.root style.table.file) keys

/-- The report of a list of style files. -/
def reportOf (options : Options) (tree : SourceTree) (bindings : List Import.Binding)
    (styles : StyleFiles) : Report :=
  (styles.map Prod.snd).foldl (record options tree bindings) []

/-- What to tell while a list of style files is compared with its uses. -/
def checkEvents (styles : StyleFiles) : List Log.Event :=
  styles.map fun (_, style) => .checking style.table.file

/-- The style files of a snapshot in a folder: from the folder's place in the order of
paths on, those that lie in it. -/
def stylesUnder (styles : StyleFiles) (folder : Path) : StyleFiles :=
  (PathMap.startingAt styles folder).takeWhile fun (path, _) => path.startsWith folder

/-- The report of a folder of the project. -/
def folderReport (disk : Disk) (options : Options) (snapshot : Snapshot) (folder : Path)
    (reader : Import.Reader := Import.read) :
    Except ScanError FolderReport × List Log.Event :=
  let place := Path.absolutize options.root folder
  let found (bindings : List Import.Binding) (styles : StyleFiles) : FolderReport :=
    ⟨folder, reportOf options snapshot.tree bindings styles, styles.length⟩
  match disk.node place with
  | .error fault => (.error (.read place fault), [])
  | .ok _ =>
    if place.startsWith options.root then
      let styles := stylesUnder snapshot.styles place
      (.ok (found snapshot.bindings styles), checkEvents styles)
    else
      match SourceTree.load disk options.selection place with
      | .error e => (.error e, [])
      | .ok outside =>
        let styles := StyleFiles.ofTree options outside
        (.ok (found (Import.index options snapshot.tree styles reader) styles),
          .loaded outside.length place ::
            StyleFiles.events options outside ++ Import.events snapshot.tree reader ++
              checkEvents styles)

/-- The reports of several folders, up to the first failure. -/
def folderReports (disk : Disk) (options : Options) (snapshot : Snapshot)
    (folders : List Path) (reader : Import.Reader := Import.read) :
    Except ScanError (List FolderReport) × List Log.Event :=
  match folders with
  | [] => (.ok [], [])
  | folder :: folders =>
    match folderReport disk options snapshot folder reader with
    | (.error e, events) => (.error e, events)
    | (.ok found, events) =>
      match folderReports disk options snapshot folders reader with
      | (.error e, more) => (.error e, events ++ more)
      | (.ok rest, more) => (.ok (found :: rest), events ++ more)

/-- Takes a snapshot and reports on several folders. -/
def scan (disk : Disk) (options : Options) (folders : List Path)
    (reader : Import.Reader := Import.read) :
    Except ScanError (List FolderReport) × List Log.Event :=
  match Snapshot.take disk options reader with
  | (.error e, events) => (.error e, events)
  | (.ok snapshot, events) =>
    let (found, more) := folderReports disk options snapshot folders reader
    (found, events ++ more)

end Analysis

end StylePrune
