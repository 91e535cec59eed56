import StylePrune.Toml.Text

/-!
# Flat TOML

Settings are lines `key = value` with texts, whole numbers, truth values and lists of
texts. A text with anything else that TOML knows, such as tables, dotted keys, fractions
or dates, is not read, because no setting is of that kind.
-/

namespace StylePrune.Toml

/-- The value of a setting. -/
inductive Value where
  | text (s : String)
  | number (n : Nat)
  | flag (b : Bool)
  | texts (items : List String)
deriving DecidableEq, Repr

/-- Removes the blanks at the front. -/
def skipBlanks (text : List Char) : List Char :=
  text.dropWhile Text.isTab

/-- Reads a comment, if one begins here, up to the end of its line. -/
def skipComment? : List Char → Option (List Char)
  | '#' :: rest =>
    let line := rest.takeWhile (· != '\n')
    let line :=
      if line.getLast? = some '\r' ∧ line.length < rest.length then line.dropLast else line
    if line.all isPlain then some (rest.drop line.length) else none
  | rest => some rest

/-- Reads the end of a line: blanks, a comment, and a line break or the end. -/
def endLine? (text : List Char) : Option (List Char) := do
  let rest ← skipComment? (skipBlanks text)
  if rest = [] then some []
  else
    let next := dropLineBreak rest
    if next.length < rest.length then some next else none

/-- Removes blanks, comments and line breaks between the items of a list. -/
def skipLines : Nat → List Char → Option (List Char)
  | 0, _ => none
  | fuel + 1, text =>
    match dropBlankLines text with
    | '#' :: rest =>
      match skipComment? ('#' :: rest) with
      | some rest => skipLines fuel rest
      | none => none
    | rest => some rest

/-- A key without quotes. -/
def isKeyChar (c : Char) : Bool :=
  c.isAlphanum || c == '_' || c == '-'

/-- Reads a key. -/
def readKey (text : List Char) : Option (String × List Char) :=
  match text.takeWhile isKeyChar with
  | [] => (readShort text).map fun (key, rest) => (String.ofList key, rest)
  | key => some (String.ofList key, text.drop key.length)

/-- Removes the underscores between digits; any other underscore is refused. -/
def digits? (isDigit : Char → Bool) : List Char → Option (List Char)
  | [] => none
  | [d] => if isDigit d then some [d] else none
  | d :: '_' :: e :: rest =>
    if isDigit d then (digits? isDigit (e :: rest)).map (d :: ·) else none
  | d :: rest => if isDigit d then (digits? isDigit rest).map (d :: ·) else none

/-- The number with the given digits in a base. -/
def numberIn (base : Nat) (digits : List Char) : Nat :=
  digits.foldl (fun n d => n * base + (hexValue? d).getD 0) 0

/-- A digit of a base up to sixteen. -/
def isDigitIn (base : Nat) (c : Char) : Bool :=
  match hexValue? c with
  | some n => n < base
  | none => false

/-- The number that a word without sign stands for. A decimal number has no zero in
front. -/
def unsigned? (word : List Char) : Option Nat :=
  let within (base : Nat) (digits : List Char) : Option Nat :=
    (digits? (isDigitIn base) digits).map (numberIn base)
  match word with
  | ['0'] => some 0
  | '0' :: 'x' :: digits => within 16 digits
  | '0' :: 'o' :: digits => within 8 digits
  | '0' :: 'b' :: digits => within 2 digits
  | '0' :: _ => none
  | digits => within 10 digits

/-- The greatest number of a setting. -/
def maxNumber : Nat := Nat.pow 2 64 - 1

/-- The number that a word stands for. Only zero may be negative, and only decimal
numbers have a sign. -/
def number? (word : List Char) : Option Nat :=
  let decimal (digits : List Char) : Option Nat :=
    if digits.all fun c => c.isDigit || c == '_' then unsigned? digits else none
  let n? :=
    match word with
    | '+' :: digits => decimal digits
    | '-' :: digits => (decimal digits).filter (· == 0)
    | digits => unsigned? digits
  n?.filter (· ≤ maxNumber)

/-- Reads a value without quotes and brackets. -/
def readWord (text : List Char) : Option (Value × List Char) :=
  let word := text.takeWhile fun c => isKeyChar c || c == '+'
  let rest := text.drop word.length
  if word = "true".toList then some (.flag true, rest)
  else if word = "false".toList then some (.flag false, rest)
  else (number? word).map fun n => (.number n, rest)

/-- Reads the items of a list behind its opening bracket, or behind a comma. -/
def readItems : Nat → List Char → Option (List String × List Char)
  | 0, _ => none
  | fuel + 1, text => do
    match ← skipLines (text.length + 1) text with
    | ']' :: rest => some ([], rest)
    | rest =>
      let (item, rest) ← readText rest
      match ← skipLines (rest.length + 1) rest with
      | ']' :: rest => some ([String.ofList item], rest)
      | ',' :: rest =>
        let (items, rest) ← readItems fuel rest
        some (String.ofList item :: items, rest)
      | _ => none

/-- Reads a value. -/
def readValue (text : List Char) : Option (Value × List Char) :=
  match text with
  | '[' :: rest =>
    (readItems (rest.length + 1) rest).map fun (items, rest) => (.texts items, rest)
  | '"' :: _ | '\'' :: _ =>
    (readText text).map fun (cs, rest) => (.text (String.ofList cs), rest)
  | _ => readWord text

/-- Reads a line with a key and a value. -/
def readPair (text : List Char) : Option ((String × Value) × List Char) := do
  let (key, rest) ← readKey text
  match skipBlanks rest with
  | '=' :: rest =>
    let (value, rest) ← readValue (skipBlanks rest)
    let rest ← endLine? rest
    return ((key, value), rest)
  | _ => none

/-- Reads lines up to the end. -/
def readLines : Nat → List Char → Option (List (String × Value))
  | 0, _ => none
  | fuel + 1, text =>
    match skipBlanks text with
    | [] => some []
    | line =>
      match endLine? line with
      | some rest => readLines fuel rest
      | none => do
        let (pair, rest) ← readPair line
        let pairs ← readLines fuel rest
        return pair :: pairs

/-- The pairs of a text, unless a key occurs twice. A byte order mark in front is
skipped. -/
def read? (text : List Char) : Option (List (String × Value)) := do
  let text := match text with
    | '\uFEFF' :: rest => rest
    | text => text
  let pairs ← readLines (text.length + 1) text
  if (pairs.map Prod.fst).Nodup then some pairs else none

end StylePrune.Toml
