import StylePrune.Json.Text

/-!
# JSON values

The values that are written, with two layouts. The compact one has no blanks. The spread
one puts each element on a line of its own, two spaces deeper than the brackets around
it, and keeps empty brackets together.
-/

namespace StylePrune.Json

/-- A value. -/
inductive Value where
  | null
  | bool (b : Bool)
  | number (n : Nat)
  | text (s : String)
  | list (items : List Value)
  | object (members : List (String × Value))
deriving Inhabited

/-- How a value without parts is written. -/
def Value.writePlain : Value → List Char
  | .null => "null".toList
  | .bool b => if b then "true".toList else "false".toList
  | .number n => Nat.toDigits 10 n
  | .text s => writeText s.toList
  | .list _ | .object _ => []

mutual

/-- The compact layout of a value. -/
def Value.compact : Value → List Char
  | .list items => '[' :: compactItems true items ++ [']']
  | .object members => '{' :: compactMembers true members ++ ['}']
  | value => value.writePlain

/-- The items of a list, each but the first behind a comma. -/
def compactItems (first : Bool) : List Value → List Char
  | [] => []
  | item :: items =>
    (if first then [] else [',']) ++ item.compact ++ compactItems false items

/-- The members of an object, each but the first behind a comma. -/
def compactMembers (first : Bool) : List (String × Value) → List Char
  | [] => []
  | (key, value) :: members =>
    (if first then [] else [',']) ++ writeText key.toList ++ ':' :: value.compact ++
      compactMembers false members

end

/-- The start of a line inside `depth` brackets. -/
def newLine (depth : Nat) : List Char :=
  '\n' :: List.replicate (2 * depth) ' '

mutual

/-- The spread layout of a value inside `depth` brackets. -/
def Value.spread (depth : Nat) : Value → List Char
  | .list [] => ['[', ']']
  | .list (item :: items) =>
    '[' :: spreadItems depth true (item :: items) ++ newLine depth ++ [']']
  | .object [] => ['{', '}']
  | .object (member :: members) =>
    '{' :: spreadMembers depth true (member :: members) ++ newLine depth ++ ['}']
  | value => value.writePlain

/-- The items of a list on lines of their own. -/
def spreadItems (depth : Nat) (first : Bool) : List Value → List Char
  | [] => []
  | item :: items =>
    (if first then [] else [',']) ++ newLine (depth + 1) ++ item.spread (depth + 1) ++
      spreadItems depth false items

/-- The members of an object on lines of their own. -/
def spreadMembers (depth : Nat) (first : Bool) : List (String × Value) → List Char
  | [] => []
  | (key, value) :: members =>
    (if first then [] else [',']) ++ newLine (depth + 1) ++ writeText key.toList ++
      ':' :: ' ' :: value.spread (depth + 1) ++ spreadMembers depth false members

end

end StylePrune.Json
