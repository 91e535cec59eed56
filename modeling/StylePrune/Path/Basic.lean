import StylePrune.Text.Search

/-!
# Paths

A path is a text; what it denotes is its list of components. Repeated slashes, a trailing
slash and a `.` that is not in front carry no component, so two texts may be the same
path. Order, equality of paths and "lies under" all go component by component; hence
`app/x` comes before `app-b`.

The names of a path are Unicode texts. A file system may also hold names that are no text;
those, and the replacement characters in which they would be shown, are left out.
-/

namespace StylePrune

/-- A component of a path. -/
inductive Component where
  /-- The leading slash of an absolute path. -/
  | root
  /-- A `.` in front of a relative path. -/
  | here
  /-- A `..`. -/
  | up
  /-- Any other name. -/
  | name (name : String)
deriving DecidableEq, Repr

/-- A path as it was written. -/
structure Path where
  text : String
deriving DecidableEq, Repr, Inhabited

namespace Component

/-- The place of a kind of component in the order of components. -/
def rank : Component → Nat
  | .root => 0
  | .here => 1
  | .up => 2
  | .name _ => 3

/-- The strict order of components; names go by code points. -/
def before : Component → Component → Bool
  | .name s, .name t => s < t
  | c, d => c.rank < d.rank

/-- The text of a component inside a path. -/
def text : Component → String
  | .root => ""
  | .here => "."
  | .up => ".."
  | .name s => s

/-- The component that a piece between two slashes stands for, if any. -/
def ofPiece? (piece : List Char) : Option Component :=
  if piece = [] ∨ piece = ['.'] then none
  else if piece = ['.', '.'] then some .up
  else some (.name (String.ofList piece))

/-- The strict lexicographic order of lists of components. -/
def listBefore : List Component → List Component → Bool
  | _, [] => false
  | [], _ :: _ => true
  | c :: cs, d :: ds => if c = d then listBefore cs ds else c.before d

end Component

namespace Path

/-- The pieces of the text between its slashes. -/
def pieces (p : Path) : List (List Char) :=
  Text.pieces (· == '/') p.text.toList

/-- The components that a list of pieces stands for. -/
def componentsOfPieces (pieces : List (List Char)) : List Component :=
  pieces.filterMap Component.ofPiece?

/-- The component in front of the pieces of the body: the root, or a leading `.`. -/
def lead? (p : Path) : Option Component :=
  match p.pieces with
  | [] :: _ :: _ => some .root
  | ['.'] :: _ => some .here
  | _ => none

/-- The pieces behind the leading component. -/
def body (p : Path) : List (List Char) :=
  match p.lead? with
  | some _ => p.pieces.tail
  | none => p.pieces

/-- What the path denotes. -/
def components (p : Path) : List Component :=
  p.lead?.toList ++ componentsOfPieces p.body

/-- Whether two texts are the same path. -/
def same (p q : Path) : Bool :=
  p.components = q.components

/-- The strict order of paths. -/
def before (p q : Path) : Bool :=
  Component.listBefore p.components q.components

/-- Whether a path is a folder's path or leads on from it. -/
def startsWith (p dir : Path) : Bool :=
  dir.components.isPrefixOf p.components

/-- Whether a path begins at the root. -/
def isAbsolute (p : Path) : Bool :=
  p.text.toList.head? = some '/'

/-- The text of a list of components. -/
def textOf : List Component → String
  | .root :: cs => "/" ++ String.intercalate "/" (cs.map Component.text)
  | cs => String.intercalate "/" (cs.map Component.text)

/-- The plain path with the given components. -/
def ofComponents (cs : List Component) : Path :=
  ⟨textOf cs⟩

/-- The path `q` taken from `p`: an absolute `q` stands for itself. -/
def join (p q : Path) : Path :=
  if q.isAbsolute then q
  else if p.text = "" ∨ p.text.toList.getLast? = some '/' then ⟨p.text ++ q.text⟩
  else ⟨p.text ++ "/" ++ q.text⟩

/-- The path without its last component; the root and the empty path have none to lose. -/
def parent? (p : Path) : Option Path :=
  match p.components.getLast? with
  | none | some .root => none
  | some _ => some (ofComponents p.components.dropLast)

/-- The name at the end of a path. -/
def fileName? (p : Path) : Option String :=
  match p.components.getLast? with
  | some (.name s) => some s
  | _ => none

/-- The part of the file name behind its last dot. A dot in front of the name starts no
extension. -/
def extension? (p : Path) : Option String := do
  let name ← p.fileName?
  let (stem, ext) ← Text.splitLast ['.'] name.toList
  if stem = [] then none else some (String.ofList ext)

/-- Whether a piece carries a component. -/
def isSolid (piece : List Char) : Bool :=
  (Component.ofPiece? piece).isSome

/-- Drops pieces up to and including the `n`-th that carries a component. -/
def dropSolid : Nat → List (List Char) → List (List Char)
  | 0, pieces => pieces
  | _ + 1, [] => []
  | n + 1, piece :: rest => dropSolid (if isSolid piece then n else n + 1) rest

/-- Drops the pieces at the end that carry no component. -/
def dropHollowEnd (pieces : List (List Char)) : List (List Char) :=
  (pieces.reverse.dropWhile (!isSolid ·)).reverse

/-- The text of the path behind its first `n` components. -/
def textAfter (p : Path) (n : Nat) : String :=
  let ofPieces (pieces : List (List Char)) : String :=
    String.intercalate "/" (pieces.map String.ofList)
  match n, p.lead? with
  | 0, none => ofPieces (dropHollowEnd p.body)
  | 0, some .root => "/" ++ ofPieces (dropHollowEnd p.body)
  | 0, some lead => ofPieces (lead.text.toList :: dropHollowEnd p.body)
  | n + 1, none =>
    ofPieces (dropHollowEnd ((dropSolid (n + 1) p.body).dropWhile (!isSolid ·)))
  | n + 1, some _ => ofPieces (dropHollowEnd ((dropSolid n p.body).dropWhile (!isSolid ·)))

/-- The text of a path that starts with `dir` behind it. -/
def relativeTo? (p dir : Path) : Option String :=
  if p.startsWith dir then some (p.textAfter dir.components.length) else none

end Path

end StylePrune
