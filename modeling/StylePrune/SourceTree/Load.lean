import StylePrune.ScanError
import StylePrune.SourceTree

/-!
# Loading a source tree

All regular files below a folder are read, down to a given depth. What a pattern describes,
by its path from the folder or by its bare name, is left out together with everything below
it. Links are left out too; only the folder itself may be given as one. Loading does not
depend on what patterns are: it takes any `PatternReader`, and the program reads globs.
-/

namespace StylePrune.SourceTree

/-- Which files of a folder are loaded. -/
structure Selection where
  /-- The patterns of what is left out. -/
  ignore : List String
  /-- How many names a file may lie below the folder. -/
  maxDepth : Nat
deriving DecidableEq, Repr

/-- What is left out unless other patterns are chosen. -/
def defaultIgnore : List String := [".DS_Store"]

/-- How deep a folder is loaded unless another depth is chosen. -/
def defaultDepth : Nat := 64

/-- A way to read a pattern as the test of what it describes. -/
abbrev PatternReader := String → Except Glob.Fault (String → Bool)

/-- Reads a glob. -/
def readGlob : PatternReader :=
  fun text => (Glob.read text).map Glob.describes

/-- Reads a list of patterns. -/
def readPatterns (texts : List String) (reader : PatternReader := readGlob) :
    Except ScanError (List (String → Bool)) :=
  match texts with
  | [] => .ok []
  | text :: texts =>
    match reader text with
    | .error fault => .error (.pattern text fault)
    | .ok test =>
      match readPatterns texts reader with
      | .error e => .error e
      | .ok tests => .ok (test :: tests)

/-- The names on the way to a file as one text, with slashes in place of backslashes. -/
def relativeText (place : List String) : String :=
  (String.intercalate "/" place).map fun c => if c = '\\' then '/' else c

/-- Whether no pattern describes the last name on the way to a file, alone or with those in
front of it. -/
def isAdmitted (tests : List (String → Bool)) (place : List String) : Bool :=
  !tests.any fun test => test (relativeText place) || test (place.getLast?.getD "")

/-- The path of a place below a folder. -/
def pathAt (root : Path) (place : List String) : Path :=
  place.foldl (fun path name => path.join ⟨name⟩) root

/-- Loads the selected files below a folder. -/
def load (disk : Disk) (selection : Selection) (root : Path)
    (reader : PatternReader := readGlob) : Except ScanError SourceTree :=
  match disk.node root with
  | .error fault => .error (.read root fault)
  | .ok (.folder entries) =>
    match readPatterns selection.ignore reader with
    | .error e => .error e
    | .ok tests =>
      let files := (Node.folder entries).files (isAdmitted tests) selection.maxDepth []
      .ok (PathMap.ofList (files.map fun (place, bytes) =>
        (pathAt root place, Text.decodeLenient bytes)))
  | .ok _ => .error (.notFolder root)

end StylePrune.SourceTree
