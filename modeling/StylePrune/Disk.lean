import StylePrune.Path.Basic
import StylePrune.Text.Utf8

/-!
# Disks

A disk is a tree of folders that hold files, links and further folders. A path is
followed from the root of the disk; a link on the way is replaced by its target, whatever
the path asks for. Reading and writing either succeed or fail with the reason that the
disk gives.

Permissions and free space are no part of a disk: a file that can be read can be written
(`exists_write_of_read`). A removal writes only files that it has read, so on these disks
its writing never fails.
-/

namespace StylePrune

/-- What stands under a name in a folder. -/
inductive Node where
  /-- A regular file. -/
  | file (bytes : ByteArray)
  /-- A folder with what it holds, by name. -/
  | folder (entries : List (String × Node))
  /-- A symbolic link. -/
  | link (target : Path)
deriving Inhabited

namespace Node

/-- What a folder holds under a name. -/
def child? : Node → String → Option Node
  | .folder entries, name => entries.lookup name
  | _, _ => none

/-- What is found by going down through folders. Links are not followed. -/
def get? : Node → List String → Option Node
  | node, [] => some node
  | node, name :: names =>
    match node.child? name with
    | some child => child.get? names
    | none => none

/-- Puts an entry under a name, in place of one that is there. -/
def putEntry (name : String) (node : Node) : List (String × Node) → List (String × Node)
  | [] => [(name, node)]
  | (n, old) :: rest =>
    if n = name then (n, node) :: rest else (n, old) :: putEntry name node rest

/-- Puts a node at a place; folders that are missing on the way there are made. -/
def put : Node → List String → Node → Node
  | _, [], new => new
  | .folder entries, name :: names, new =>
    .folder
      (putEntry name (((entries.lookup name).getD (.folder [])).put names new) entries)
  | node, _ :: _, _ => node

/-- Removes what stands at a place. -/
def erase : Node → List String → Node
  | .folder entries, [name] => .folder (entries.filter (·.1 != name))
  | .folder entries, name :: names =>
    match entries.lookup name with
    | some child => .folder (putEntry name (child.erase names) entries)
    | none => .folder entries
  | node, _ => node

/-- The regular files below a node that are reached by going down at most `depth` names,
each of them admitted at its place. -/
def files (admitted : List String → Bool) :
    Nat → List String → Node → List (List String × ByteArray)
  | 0, _, _ => []
  | depth + 1, place, .folder entries =>
    entries.flatMap fun (name, node) =>
      let place := place ++ [name]
      if admitted place then
        match node with
        | .file bytes => [(place, bytes)]
        | node => files admitted depth place node
      else []
  | _ + 1, _, _ => []

end Node

/-- A disk, given by its root folder. -/
structure Disk where
  root : Node
deriving Inhabited

namespace Disk

/-- Why a disk refuses. -/
inductive Fault where
  | noEntry
  | notFolder
  | isFolder
  | tooManyLinks
  /-- The bytes of a file are no text. -/
  | notText
deriving DecidableEq, Repr

/-- The text of a refusal. -/
def Fault.message : Fault → String
  | .noEntry => "No such file or directory (os error 2)"
  | .notFolder => "Not a directory (os error 20)"
  | .isFolder => "Is a directory (os error 21)"
  | .tooManyLinks => "Too many levels of symbolic links (os error 40)"
  | .notText => "stream did not contain valid UTF-8"

/-- Where a path leads. -/
inductive Spot where
  /-- To a file or folder. -/
  | found (place : List String) (node : Node)
  /-- To a name that a folder does not hold. -/
  | absent (place : List String)

/-- The most links that are followed on one way. -/
def maxLinks : Nat := 40

/-- Follows the pieces of a path from a folder of the disk. -/
def follow (root : Node) (links : Nat) (place : List String) (pieces : List String) :
    Except Fault Spot :=
  match pieces with
  | [] =>
    match root.get? place with
    | some node => .ok (.found place node)
    | none => .error .noEntry
  | piece :: rest =>
    if piece = "" ∨ piece = "." then follow root links place rest
    else if piece = ".." then follow root links place.dropLast rest
    else
      match root.get? (place ++ [piece]) with
      | none => if rest = [] then .ok (.absent (place ++ [piece])) else .error .noEntry
      | some (.file bytes) =>
        if rest = [] then .ok (.found (place ++ [piece]) (.file bytes))
        else .error .notFolder
      | some (.folder _) => follow root links (place ++ [piece]) rest
      | some (.link target) =>
        match links with
        | 0 => .error .tooManyLinks
        | links + 1 =>
          follow root links (if target.isAbsolute then [] else place)
            (target.pieces.map String.ofList ++ rest)
termination_by (links, pieces.length)

/-- Where a path leads on a disk. -/
def locate (disk : Disk) (path : Path) : Except Fault Spot :=
  if path.text = "" then .error .noEntry
  else follow disk.root maxLinks [] (path.pieces.map String.ofList)

/-- The file or folder at a path. -/
def node (disk : Disk) (path : Path) : Except Fault Node :=
  match disk.locate path with
  | .error fault => .error fault
  | .ok (.absent _) => .error .noEntry
  | .ok (.found _ node) => .ok node

/-- Whether there is something at a path. -/
def isPresent (disk : Disk) (path : Path) : Bool :=
  match disk.node path with
  | .ok _ => true
  | .error _ => false

/-- The bytes of the file at a path. -/
def read (disk : Disk) (path : Path) : Except Fault ByteArray :=
  match disk.node path with
  | .error fault => .error fault
  | .ok (.file bytes) => .ok bytes
  | .ok _ => .error .isFolder

/-- The text of the file at a path. -/
def readText (disk : Disk) (path : Path) : Except Fault (List Char) :=
  match disk.read path with
  | .error fault => .error fault
  | .ok bytes =>
    match Text.decode? bytes with
    | some text => .ok text
    | none => .error .notText

/-- A path without the slashes at its end. -/
def withoutSlash (path : Path) : Path :=
  ⟨String.ofList (path.text.toList.reverse.dropWhile (· == '/')).reverse⟩

/-- Gives the file at a path new bytes, and makes the file if its folder does not hold
it. A slash at the end of the path asks for a folder. -/
def write (disk : Disk) (path : Path) (bytes : ByteArray) : Except Fault Disk :=
  let put (place : List String) : Except Fault Disk :=
    if path.text.toList.getLast? = some '/' then .error .isFolder
    else .ok ⟨disk.root.put place (.file bytes)⟩
  match disk.locate (withoutSlash path) with
  | .error fault => .error fault
  | .ok (.absent place) => put place
  | .ok (.found place (.file _)) => put place
  | .ok (.found _ _) => .error .isFolder

/-- The deepest place that is compared. -/
def maxDepth : Nat := 4096

/-- The regular files of a disk that another one does not hold with the same bytes. -/
def filesChangedFrom (disk old : Disk) : List (List String × ByteArray) :=
  (disk.root.files (fun _ => true) maxDepth []).filter fun (place, bytes) =>
    match old.root.get? place with
    | some (.file before) => before.toList != bytes.toList
    | _ => true

end Disk

end StylePrune
