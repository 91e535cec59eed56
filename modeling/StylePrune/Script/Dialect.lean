import StylePrune.Path.Basic

/-!
# Script dialects

Which grammar a source file is read with follows from the extension of its name, in
exactly this spelling.
-/

namespace StylePrune.Script

/-- What a source file may hold besides plain JavaScript. -/
structure Dialect where
  /-- Type annotations and the other TypeScript forms. -/
  types : Bool
  /-- JSX elements in expressions. -/
  markup : Bool
deriving DecidableEq, Repr

namespace Dialect

/-- The dialect of an extension. -/
def ofExtension? (ext : String) : Option Dialect :=
  if ext ∈ ["js", "mjs", "cjs"] then some ⟨false, false⟩
  else if ext = "jsx" then some ⟨false, true⟩
  else if ext ∈ ["ts", "mts", "cts"] then some ⟨true, false⟩
  else if ext = "tsx" then some ⟨true, true⟩
  else none

/-- The dialect that a file is written in, if it is a script. -/
def ofPath? (file : Path) : Option Dialect :=
  file.extension?.bind ofExtension?

end Dialect

end StylePrune.Script
