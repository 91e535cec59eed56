import StylePrune.Import.Resolve
import StylePrune.SourceTree

/-!
# The index of imports

For each style file, the imports of it in a source tree, in the order of the importing
files and of the imports in them.
-/

namespace StylePrune.Import

/-- An import of a style file. -/
structure Binding where
  /-- The importing file. -/
  file : Path
  /-- The style file. -/
  target : Path
  /-- The names the import binds. -/
  aliases : Names
deriving DecidableEq, Repr

/-- The directives of each file of a tree. -/
abbrev FileDirectives := List (Path × List Directive)

/-- The import of a style file that a directive is, if it is one. -/
def Resolution.binding? (r : Resolution) (styles : List Path) (file : Path)
    (directive : Directive) : Option Binding :=
  (matchStyle? (r.resolve file directive.specifier) styles).map fun target =>
    ⟨file, target, directive.aliases⟩

/-- The imports of style files in a tree. -/
def Resolution.bindings (r : Resolution) (styles : List Path) (files : FileDirectives) :
    List Binding :=
  files.flatMap fun (file, directives) => directives.filterMap (r.binding? styles file)

/-- The imports of one style file among those of a tree. -/
def bindingsFor (bindings : List Binding) (style : Path) : List Binding :=
  bindings.filter fun b => b.target.same style

end StylePrune.Import
