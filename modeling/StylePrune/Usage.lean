import StylePrune.Text.Search

/-!
# Uses of keys

A key is used in a text under a name when `name.key` occurs there, whatever stands around
it.
-/

namespace StylePrune.Usage

/-- Whether a text refers to a key under a name. -/
def mentions (text : List Char) (name key : String) : Bool :=
  Text.contains (name.toList ++ '.' :: key.toList) text

/-- The keys that a text refers to under a name, in the order given. -/
def usedKeys (name : String) (keys : List String) (text : List Char) : List String :=
  keys.filter (mentions text name)

end StylePrune.Usage
