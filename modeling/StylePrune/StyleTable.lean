import StylePrune.Literal.Basic
import StylePrune.Log
import StylePrune.Text.Word

/-!
# Style tables

The style table of a file is what other files can refer to: the distinct key names of its
literal, and the name that the literal is bound to in the file itself. The residual of
the file is its text without the literal; references to the file's own keys are looked
for there.
-/

namespace StylePrune

/-- The keys that a file declares. -/
structure StyleTable where
  /-- The declaring file. -/
  file : Path
  /-- The key names in order of first occurrence. -/
  keys : List String
  /-- The name the literal is assigned to. -/
  binding : Option String
deriving DecidableEq, Repr

/-- What was found in a file. -/
structure Extraction where
  /-- The style table, if the file has a literal. -/
  table : Option StyleTable
  /-- The text without the literal. -/
  residual : List Char
deriving DecidableEq, Repr

namespace StyleTable

/-- The first occurrence of each element. -/
def firstOccurrences : List String → List String
  | [] => []
  | x :: xs => x :: (firstOccurrences xs).filter (· != x)

/-- Reads `name`, an optional annotation behind a colon, and a final `=`; nothing but
white space may follow. -/
def assignedName? (text : List Char) : Option String :=
  match text with
  | c :: rest =>
    if Literal.isWordStart c then
      let name := c :: rest.takeWhile fun d => Text.isWordChar d || d == '$'
      let rest := Text.trimStart (rest.dropWhile fun d => Text.isWordChar d || d == '$')
      let rest := if rest.head? = some ':' then rest.dropWhile (· != '=') else rest
      match rest with
      | '=' :: rest => if Text.trimStart rest = [] then some (String.ofList name) else none
      | _ => none
    else
      none
  | [] => none

/-- Reads a declaration keyword, white space and an assigned name from the start of a
text. -/
def declaredName? (text : List Char) : Option String :=
  ["const", "let", "var"].findSome? fun keyword =>
    match keyword.toList.isPrefixOf? text with
    | some (c :: rest) =>
      if Text.isBlank c then assignedName? (Text.trimStart rest) else none
    | _ => none

/-- The name declared by the first declaration of a line that the line ends with. -/
def bindingOfLine? : List Char → Option String
  | [] => none
  | c :: rest => (declaredName? (c :: rest)).orElse fun _ => bindingOfLine? rest

/-- The name that a literal behind `front` is assigned to, read from the last line of
`front`. -/
def binding? (front : List Char) : Option String :=
  bindingOfLine? (Text.lastLine front)

/-- The style table of a text, its residual, and what to tell about it. -/
def extract (file : Path) (marker text : List Char) : Extraction × List Log.Event :=
  match Literal.find? marker text with
  | none => (⟨none, text⟩, [])
  | some literal =>
    let front := Text.before literal.start text
    let back := Text.after literal.stop text
    let events :=
      if !literal.terminated then [.unterminated file]
      else if Text.contains marker back then [.repeated file]
      else []
    let table : StyleTable :=
      ⟨file, firstOccurrences (literal.keys.map KeySpan.name), binding? front⟩
    (⟨some table, front ++ back⟩, events)

end StyleTable

end StylePrune
