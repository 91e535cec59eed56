import StylePrune.Path.Basic

/-!
# Source trees

The files of a folder tree by path. The list is increasing in the order of paths and
holds each path once, however it is spelled.
-/

namespace StylePrune

/-- A map by paths, kept as an increasing list. -/
abbrev PathMap (α : Type) := List (Path × α)

namespace PathMap

/-- Puts a value at a path; a value that is there already is replaced and keeps its
spelling of the path. -/
def insert {α : Type} (path : Path) (value : α) : PathMap α → PathMap α
  | [] => [(path, value)]
  | (p, v) :: rest =>
    if path.same p then (p, value) :: rest
    else if path.before p then (path, value) :: (p, v) :: rest
    else (p, v) :: insert path value rest

/-- The map of a list of pairs; later pairs win. -/
def ofList {α : Type} (pairs : List (Path × α)) : PathMap α :=
  pairs.foldl (fun map (path, value) => map.insert path value) []

/-- The value at a path. -/
def get? {α : Type} (map : PathMap α) (path : Path) : Option α :=
  (map.find? fun (p, _) => path.same p).map Prod.snd

/-- The paths of a map, in order. -/
def paths {α : Type} (map : PathMap α) : List Path :=
  map.map Prod.fst

/-- The part of a map from a path on. -/
def startingAt {α : Type} (map : PathMap α) (path : Path) : PathMap α :=
  map.dropWhile fun (p, _) => p.before path

end PathMap

/-- The texts of the files of a folder tree. -/
abbrev SourceTree := PathMap (List Char)

end StylePrune
