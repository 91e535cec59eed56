import StylePrune.Import.Index
import StylePrune.Import.Read
import StylePrune.SourceTree.Load
import StylePrune.StyleTable

/-!
# Snapshots

A snapshot of a project is its source tree together with what the analysis needs of it:
the style tables, and the files that import them.
-/

namespace StylePrune

/-- How a project is analysed. -/
structure Options where
  /-- The root folder. -/
  root : Path
  /-- What opens a style literal. -/
  marker : String := Literal.defaultMarker
  /-- The first segment of specifiers that are taken from the root folder. -/
  rootAlias : String := Import.defaultAlias
  /-- Whether a file's references to its own keys count. -/
  localUsage : Bool := true
  /-- Which files are loaded. -/
  selection : SourceTree.Selection := ⟨SourceTree.defaultIgnore, SourceTree.defaultDepth⟩
deriving DecidableEq, Repr

/-- How specifiers are resolved. -/
def Options.resolution (options : Options) : Import.Resolution :=
  ⟨options.root, options.rootAlias⟩

/-- A style file: its table and the text around its literal. -/
structure StyleFile where
  table : StyleTable
  residual : List Char
deriving DecidableEq, Repr

/-- The style files of a tree, by path. -/
abbrev StyleFiles := PathMap StyleFile

namespace StyleFiles

/-- The style file that a text is, if it has a literal. -/
def ofText? (options : Options) (path : Path) (text : List Char) :
    Option (Path × StyleFile) :=
  let found := (StyleTable.extract path options.marker.toList text).1
  found.table.map fun table => (path, ⟨table, found.residual⟩)

/-- The style files of a tree. -/
def ofTree (options : Options) (tree : SourceTree) : StyleFiles :=
  tree.filterMap fun (path, text) => ofText? options path text

/-- What to tell while the style files of a tree are collected. -/
def events (options : Options) (tree : SourceTree) : List Log.Event :=
  tree.flatMap fun (path, text) => (StyleTable.extract path options.marker.toList text).2

end StyleFiles

/-- The imports of style files in a tree. -/
def Import.index (options : Options) (tree : SourceTree) (styles : StyleFiles)
    (reader : Import.Reader := Import.read) : List Import.Binding :=
  options.resolution.bindings styles.paths
    (tree.map fun (path, text) => (path, (reader path text).1))

/-- What to tell while the imports of a tree are read. -/
def Import.events (tree : SourceTree) (reader : Import.Reader := Import.read) :
    List Log.Event :=
  tree.flatMap fun (path, text) => (reader path text).2

/-- What is known of a project. -/
structure Snapshot where
  tree : SourceTree
  styles : StyleFiles
  bindings : List Import.Binding
deriving DecidableEq, Repr

namespace Snapshot

/-- The snapshot of a source tree. -/
def ofTree (options : Options) (tree : SourceTree) (reader : Import.Reader := Import.read) :
    Snapshot :=
  let styles := StyleFiles.ofTree options tree
  ⟨tree, styles, Import.index options tree styles reader⟩

/-- What to tell while the snapshot of a source tree is taken. -/
def events (options : Options) (tree : SourceTree) (reader : Import.Reader := Import.read) :
    List Log.Event :=
  .loaded tree.length options.root ::
    StyleFiles.events options tree ++ Import.events tree reader ++
      [.collected (StyleFiles.ofTree options tree).length tree.length]

/-- Takes the snapshot of the project on a disk. -/
def take (disk : Disk) (options : Options) (reader : Import.Reader := Import.read) :
    Except ScanError Snapshot × List Log.Event :=
  match SourceTree.load disk options.selection options.root with
  | .error e => (.error e, [])
  | .ok tree => (.ok (ofTree options tree reader), events options tree reader)

end Snapshot

end StylePrune
