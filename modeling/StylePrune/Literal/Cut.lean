import StylePrune.Literal.Basic

/-!
# Cutting entries out of a literal

An entry is cut together with the comma behind it and the line it leaves empty. What is
cut depends on the lines the entry shares: with more text on its last line that text
stays in place, an entry on lines of its own takes them along, and an entry that only
shares its first line leaves that line's text and its line ending.
-/

namespace StylePrune.Literal

/-- The rest of a line without its line feed, and what follows. -/
def restOfLine (text : List Char) : List Char × List Char :=
  (text.takeWhile (· != '\n'), text.dropWhile (· != '\n'))

/-- Separates the carriage return of a line ending from the line. -/
def splitReturn (line : List Char) : List Char × List Char :=
  if line.getLast? = some '\r' then (line.dropLast, ['\r']) else (line, [])

/-- Removes blanks, one comma and the blanks behind it. -/
def dropSeparator (line : List Char) : List Char :=
  match line.dropWhile Text.isTab with
  | ',' :: rest => rest.dropWhile Text.isTab
  | rest => rest

/-- Joins the text in front of an entry and the text behind it without the lines and the
separator that the entry leaves over. -/
def closeGap (front back : List Char) : List Char :=
  let (line, below) := restOfLine back
  let (line, ending) := splitReturn line
  let line := dropSeparator line
  if Text.trim line ≠ [] then
    front ++ line ++ ending ++ below
  else if Text.trim (Text.lastLine front) = [] then
    Text.upToLastLine front ++ below.drop 1
  else
    Text.dropEndWhile Text.isTab front ++ ending ++ below

/-- Cuts the first entry named `key` out of the first style literal of a text; nothing
when there is none. -/
def cut? (marker text : List Char) (key : String) : Option (List Char) := do
  let literal ← find? marker text
  let span ← literal.key? key
  return closeGap (Text.before span.start text) (Text.after span.entryEnd text)

/-- The outcome of cutting several keys. -/
structure Cut where
  /-- The text that is left. -/
  text : List Char
  /-- The keys that were cut, in the order given. -/
  removed : List String
  /-- The keys that named no entry at their turn, in the order given. -/
  missed : List String
deriving DecidableEq, Repr

/-- Cuts keys one after another, reading the text anew for each. -/
def cutAll (marker : List Char) : List Char → List String → Cut
  | text, [] => ⟨text, [], []⟩
  | text, key :: keys =>
    match cut? marker text key with
    | some shorter =>
      let rest := cutAll marker shorter keys
      { rest with removed := key :: rest.removed }
    | none =>
      let rest := cutAll marker text keys
      { rest with missed := key :: rest.missed }

end StylePrune.Literal
