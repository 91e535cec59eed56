import StylePrune.Import.Directive
import StylePrune.Path.Normal

/-!
# Resolving specifiers

A specifier names a module without its extension. It is taken from the folder of the
importing file, or from the root folder when its first segment is the root alias. A style
file answers to the path so found if it is that path, that path with the style file's
extension, or the index file of that folder.
-/

namespace StylePrune.Import

/-- How specifiers are resolved. -/
structure Resolution where
  /-- The root folder. -/
  root : Path
  /-- The first segment of a specifier that is taken from the root folder. -/
  rootAlias : String
deriving DecidableEq, Repr

/-- The alias for the root folder unless another is chosen. -/
def defaultAlias : String := "app"

/-- Whether the first segment of a specifier is the alias. -/
def Resolution.isRooted (r : Resolution) (specifier : String) : Bool :=
  match r.rootAlias.toList.isPrefixOf? specifier.toList with
  | some rest => rest = [] ∨ rest.head? = some '/'
  | none => false

/-- The path that a specifier in a file points at. -/
def Resolution.resolve (r : Resolution) (file : Path) (specifier : String) : Path :=
  let base := if r.isRooted specifier then r.root else file.parent?.getD r.root
  (base.join ⟨specifier⟩).normalize

/-- The extensions of a list of paths. -/
def extensions (styles : List Path) : Names :=
  Names.ofList (styles.filterMap Path.extension?)

/-- The paths that an import of `base` may mean, in the order they are tried. -/
def candidates (base : Path) (extensions : List String) : List Path :=
  base :: extensions.flatMap fun ext =>
    [⟨base.text ++ "." ++ ext⟩, base.join ⟨"index." ++ ext⟩]

/-- The style file that an import of `base` means, written as the candidate that found
it. -/
def matchStyle? (base : Path) (styles : List Path) : Option Path :=
  (candidates base (extensions styles)).find? fun candidate => styles.any candidate.same

end StylePrune.Import
