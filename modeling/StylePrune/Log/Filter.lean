import StylePrune.Log
import StylePrune.Text.Blank
import StylePrune.Text.Search
import StylePrune.Text.Word

/-!
# Log filters

A filter is a list of rules that set the level for parts of the program. The rule with
the longest name that the name of a part begins with decides; a rule without a name is
for all parts. Nothing is shown of a part that no rule is for.
-/

namespace StylePrune.Log

/-- The level for the parts of the program whose names begin with `target`; no level
shows nothing. -/
structure Rule where
  target : String
  limit : Option Level
deriving DecidableEq, Repr

/-- Which events are shown. -/
abbrev Filter := List Rule

namespace Filter

/-- The level with a name or number; `some none` shows nothing, and a level that is left
out shows everything. -/
def level? (text : String) : Option (Option Level) :=
  match text.toLower with
  | "off" | "0" => some none
  | "error" | "1" => some (some .error)
  | "warn" | "2" => some (some .warn)
  | "info" | "3" => some (some .info)
  | "debug" | "4" => some (some .debug)
  | "" | "trace" | "5" => some (some .trace)
  | _ => none

/-- Whether a rule may begin with a character. -/
def startsRule (c : Char) : Bool :=
  c == '-' || c == ':' || c == '_' || Text.isAlphanumeric c

/-- The rule that a text stands for: a level, a name, or a name with a level. -/
def rule? (text : List Char) : Option Rule :=
  match Text.trim text with
  | [] => none
  | c :: cs =>
    if startsRule c then
      match Text.splitFirst ['='] (c :: cs) with
      | some (target, level) =>
        (level? (String.ofList level)).map fun limit => ⟨String.ofList target, limit⟩
      | none =>
        let word := String.ofList (c :: cs)
        match level? word with
        | some limit => some ⟨"", limit⟩
        | none => some ⟨word, some .trace⟩
    else none

/-- The filter for one level. -/
def ofLevel (level : Level) : Filter :=
  [⟨"", some level⟩]

/-- The filter that a text stands for: rules between commas, or errors only when there is
none. -/
def ofText? (text : String) : Option Filter :=
  let pieces := (Text.pieces (· == ',') text.toList).filter (· ≠ [])
  if pieces = [] then some (ofLevel .error) else pieces.mapM rule?

/-- The rule that decides about a part of the program. Of two rules with one name the
later decides. -/
def ruleFor? (filter : Filter) (target : String) : Option Rule :=
  (filter.filter fun rule => rule.target.toList.isPrefixOf target.toList).foldl
    (fun best rule =>
      match best with
      | some b => if b.target.length ≤ rule.target.length then some rule else some b
      | none => some rule)
    none

/-- Whether an event is shown. -/
def shows (filter : Filter) (event : Event) : Bool :=
  match filter.ruleFor? event.topic.target with
  | some ⟨_, some limit⟩ => event.level.within limit
  | _ => false

end Filter

end StylePrune.Log
