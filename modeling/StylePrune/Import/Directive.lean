import StylePrune.Text.Blank
import StylePrune.Text.Search
import StylePrune.Text.Word

/-!
# Import directives

A directive is a module specifier with the names that its import brings into the file.
This module reads the clause between `import` and `from` for the line scanner: a default
name, a namespace and a braced list, with the type-only items of the list left out.
-/

namespace StylePrune

/-- A set of names, kept as an increasing list. -/
abbrev Names := List String

namespace Names

/-- Adds a name at its place. -/
def insert (name : String) : Names → Names
  | [] => [name]
  | n :: ns =>
    if name < n then name :: n :: ns
    else if name = n then n :: ns
    else n :: insert name ns

/-- The set of the names of a list. -/
def ofList (names : List String) : Names :=
  names.foldl (fun set name => insert name set) []

end Names

/-- An import: where from, and the local names it binds. -/
structure Directive where
  specifier : String
  aliases : Names
deriving DecidableEq, Repr

namespace Directive

/-- A character that the line scanner takes into a name. -/
def isNameChar (c : Char) : Bool :=
  Text.isAlphanumeric c || c == '_' || c == '$'

/-- A piece of a clause that is one name. -/
def name? (piece : List Char) : Option String :=
  let name := Text.trim piece
  if name ≠ [] ∧ name.all isNameChar then some (String.ofList name) else none

/-- The name that a piece in front of the braces binds: `name` or `* as name`. -/
def headName? (piece : List Char) : Option String :=
  match Text.trim piece with
  | '*' :: rest => (['a', 's'].isPrefixOf? (Text.trim rest)).bind name?
  | piece => name? piece

/-- The name that an item of a braced list binds: `name` or `other as name`, and none for
`type name`. -/
def itemName? (item : List Char) : Option String :=
  let item := Text.trim item
  if "type ".toList.isPrefixOf item then
    none
  else
    match Text.splitLast " as ".toList item with
    | some (_, name) => name? name
    | none => name? item

/-- Separates what stands in front of a braced list from the inside of the list. -/
def splitBraces (clause : List Char) : List Char × Option (List Char) :=
  match Text.splitFirst ['{'] clause with
  | some (head, rest) => (head, some (rest.takeWhile (· != '}')))
  | none => (clause, none)

/-- The names bound by the clause of an import. -/
def clauseNames (clause : List Char) : Names :=
  let (head, items) := splitBraces (Text.trim clause)
  let split (text : List Char) : List (List Char) := Text.pieces (· == ',') text
  Names.ofList
    ((split head).filterMap headName? ++ ((items.map split).getD []).filterMap itemName?)

end Directive

end StylePrune
