import StylePrune.Path.Basic

/-!
# Normal paths

Normalizing resolves `.` and `..` by the text alone. A `..` with nothing in front to take
back is kept, and a second one takes it back again; an absolute path keeps it behind the
root.
-/

namespace StylePrune.Path

/-- Puts a component on a path read so far, which is given with its last component first. -/
def pushComponent : List Component → Component → List Component
  | front, .here => front
  | [], .up => [.up]
  | .root :: front, .up => .up :: .root :: front
  | _ :: front, .up => front
  | front, c => c :: front

/-- The components that are left when `.` and `..` are resolved. -/
def normalComponents (cs : List Component) : List Component :=
  (cs.foldl pushComponent []).reverse

/-- Resolves `.` and `..` without looking at the disk. -/
def normalize (p : Path) : Path :=
  ofComponents (normalComponents p.components)

/-- The normal form of a path; a relative one is taken from `base`. -/
def absolutize (base p : Path) : Path :=
  if p.isAbsolute then normalize p else normalize (base.join p)

/-- How a path is written into a report: from the root folder when it lies under it, and
with slashes in place of backslashes. -/
def reportText (root p : Path) : String :=
  ((p.relativeTo? root).getD p.text).map fun c => if c = '\\' then '/' else c

end StylePrune.Path
