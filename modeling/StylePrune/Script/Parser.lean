import StylePrune.Script.Dialect
import StylePrune.Script.Token

/-!
# Reading by a grammar

The grammar is a recognizer: it decides whether a text is a script and says nothing else
about it, except for the shape of an expression, on which it depends what may follow. A
reader is a partial function on states; it fails where the text leaves the grammar. Rules
refer to one another through `Reader`, a function from phrases, so that each rule is an
ordinary definition; the grammar itself is the rule for every phrase, applied to itself a
bounded number of times.
-/

namespace StylePrune.Script

/-- What an expression may be used as. -/
inductive Shape where
  /-- A name or a member: it can be assigned to. -/
  | target
  /-- An array or object literal whose parts can all be assigned to. -/
  | pattern
  /-- An assignment to a target or a pattern, which is a part with a default value inside
  a pattern. -/
  | assigned
  /-- A literal with parts that only a pattern may have. -/
  | other
deriving DecidableEq, Repr

/-- Whether an expression may be a part of a pattern. -/
def Shape.fitsPattern : Shape → Bool
  | .target | .pattern | .assigned => true
  | .other => false

/-- The phrases that other phrases contain. -/
inductive Phrase where
  | statement
  | block
  | expression
  | assignment
  | unary
  | callee
  | type
  | binding
  | markup
deriving DecidableEq, Repr

/-- Where a reader stands, and what the phrases around it forbid. -/
structure State where
  dialect : Dialect
  /-- The text from the current token on. -/
  here : List Char
  /-- Whether a line ended in front of the current token. -/
  newline : Bool
  /-- The current token. -/
  token : Token
  /-- The text behind the current token. -/
  rest : List Char
  /-- `in` is not an operator, as in the head of a loop. -/
  noIn : Bool
  /-- A colon ends the expression, as between the marks of a conditional. -/
  beforeColon : Bool
  /-- `extends` does not begin a conditional type. -/
  noConditional : Bool

/-- A reader of one phrase. -/
abbrev Parser := StateT State Option

/-- A reader for each phrase. -/
abbrev Reader := Phrase → Parser Shape

namespace State

/-- Moves to the token at the start of a text. -/
def load (s : State) (cs : List Char) : State :=
  let (newline, here) := skipTrivia .between false cs
  let (token, rest) := Token.read here
  { s with here, newline, token, rest }

/-- The state at the start of a text. -/
def start (dialect : Dialect) (cs : List Char) : State :=
  State.load ⟨dialect, [], false, .eof, [], false, false, false⟩ cs

end State

/-- The text leaves the grammar here. -/
def fail {α : Type} : Parser α :=
  fun _ => none

/-- Goes on to the next token. -/
def advance : Parser Unit :=
  modify fun s => s.load s.rest

/-- The current token. -/
def token : Parser Token :=
  return (← get).token

/-- Whether a line ended in front of the current token. -/
def newlineBefore : Parser Bool :=
  return (← get).newline

/-- Whether the dialect has types. -/
def hasTypes : Parser Bool :=
  return (← get).dialect.types

/-- Whether the dialect has markup. -/
def hasMarkup : Parser Bool :=
  return (← get).dialect.markup

/-- Whether the current token is the given one. -/
def isAt (t : Token) : Parser Bool :=
  return (← token) = t

/-- Goes behind the given token if it is the current one. -/
def eat (t : Token) : Parser Bool := do
  if ← isAt t then
    advance
    return true
  else
    return false

/-- Goes behind the given token, which has to be the current one. -/
def expect (t : Token) : Parser Unit := do
  unless ← eat t do fail

/-- Whether the current token is the given word, written without escapes. -/
def isAtWord (w : String) : Parser Bool :=
  isAt (.word w true)

/-- Whether the current token is one of the given words. -/
def isAtWordOf (ws : List String) : Parser Bool := do
  match ← token with
  | .word w true => return w ∈ ws
  | _ => return false

/-- Goes behind a word if it is the current token. -/
def eatWord (w : String) : Parser Bool :=
  eat (.word w true)

/-- Goes behind a word, which has to be the current token. -/
def expectWord (w : String) : Parser Unit :=
  expect (.word w true)

/-- The token behind the current one, and whether a line ends in between. -/
def following : Parser (Token × Bool) := do
  let s ← get
  let next := s.load s.rest
  return (next.token, next.newline)

/-- Reads a phrase if it is there, and stays otherwise. -/
def attempt {α : Type} (p : Parser α) : Parser (Option α) :=
  fun s =>
    match p s with
    | some (a, s) => some (some a, s)
    | none => some (none, s)

/-- Reads a phrase and returns to its start. -/
def lookAhead {α : Type} (p : Parser α) : Parser α :=
  fun s => (p s).map fun (a, _) => (a, s)

/-- Whether a phrase is there. -/
def looksLike {α : Type} (p : Parser α) : Parser Bool :=
  fun s => some ((p s).isSome, s)

/-- Reads a phrase with other prohibitions, and returns to those in force before. -/
def within {α : Type} (change : State → State) (p : Parser α) : Parser α := do
  let outer ← get
  modify change
  let a ← p
  modify fun s =>
    { s with
      noIn := outer.noIn
      beforeColon := outer.beforeColon
      noConditional := outer.noConditional }
  return a

/-- Reads a phrase between brackets, where nothing is forbidden. -/
def enclosed {α : Type} (p : Parser α) : Parser α :=
  within (fun s => { s with noIn := false, beforeColon := false, noConditional := false }) p

/-- Repeats a step at most `n` times while it asks for more, carrying a value along. -/
def foldAtMost {α : Type} : Nat → α → (α → Parser (α × Bool)) → Parser α
  | 0, _, _ => fail
  | n + 1, a, step => do
    let (a, more) ← step a
    if more then foldAtMost n a step else return a

/-- Repeats a step while it asks for more, carrying a value along. A step that does so
reads at least one character. -/
def foldWhile {α : Type} (a : α) (step : α → Parser (α × Bool)) : Parser α := do
  foldAtMost ((← get).here.length + 2) a step

/-- Repeats a step while it asks for more. -/
def repeatWhile (step : Parser Bool) : Parser Unit :=
  foldWhile () fun _ => do return ((), ← step)

/-- Reads items between commas up to a closing token, which may follow a comma too; tells
whether all items have the property that reading them decides. -/
def commaAll (close : Token) (item : Parser Bool) : Parser Bool :=
  enclosed <| foldWhile true fun all => do
    if ← eat close then
      return (all, false)
    let all := (← item) && all
    if ← eat .comma then
      return (all, true)
    expect close
    return (all, false)

/-- Reads items between commas up to a closing token. -/
def commaList (close : Token) (item : Parser Unit) : Parser Unit := do
  let _ ← commaAll close do
    item
    return true

/-- The words that cannot name anything. -/
def reservedWords : List String :=
  ["break", "case", "catch", "class", "const", "continue", "debugger", "default",
    "delete", "do", "else", "enum", "export", "extends", "false", "finally", "for",
    "function", "if", "import", "in", "instanceof", "new", "null", "return", "super",
    "switch", "this", "throw", "true", "try", "typeof", "var", "void", "while", "with"]

/-- Reads any word. -/
def anyWord : Parser String := do
  match ← token with
  | .word w _ =>
    advance
    return w
  | _ => fail

/-- Reads a word that names something. -/
def identifier : Parser String := do
  match ← token with
  | .word w _ => if w ∈ reservedWords then fail else anyWord
  | _ => fail

/-- Whether the current token is a word that names something. -/
def isAtIdentifier : Parser Bool := do
  match ← token with
  | .word w _ => return w ∉ reservedWords
  | _ => return false

/-- A statement ends here: at a semicolon, in front of a closing brace or the end, or
where a new line begins. -/
def endStatement : Parser Unit := do
  unless ← eat .semicolon do
    match ← token with
    | .closeBrace | .eof => return ()
    | _ => unless ← newlineBefore do fail

/-- Whether an expression that began in front of the current token is over. -/
def isAtStatementEnd : Parser Bool := do
  match ← token with
  | .semicolon | .closeBrace | .eof => return true
  | _ => newlineBefore

/-- Reads the rest of a template whose first part has been read up to an interpolation,
with `part` for what stands in the interpolations. -/
def templateTail (part : Parser Unit) : Parser Unit :=
  enclosed <| repeatWhile do
    part
    unless ← isAt .closeBrace do fail
    let s ← get
    match readTemplate s.rest with
    | none => fail
    | some (complete, rest) =>
      set (s.load rest)
      return !complete

/-- Reads a template with `part` for what stands in its interpolations. -/
def template (part : Parser Unit) : Parser Unit := do
  match ← token with
  | .template true => advance
  | .template false =>
    advance
    templateTail part
  | _ => fail

end StylePrune.Script
