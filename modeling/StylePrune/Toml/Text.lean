import StylePrune.Text.Blank
import StylePrune.Text.Bytes

/-!
# Texts in TOML

A text stands between quotes of four kinds: one or three double quotes, in which a
backslash begins an escape, and one or three single quotes, in which nothing does. Texts
in three quotes may run over several lines; a line break right behind the opening quotes
does not belong to them.
-/

namespace StylePrune.Toml

/-- A character that may stand for itself in a text or a comment: no control character
but the tab. -/
def isPlain (c : Char) : Bool :=
  c == '\t' || (' ' ≤ c && c != '\x7f')

/-- The value of a hexadecimal digit. -/
def hexValue? (c : Char) : Option Nat :=
  if '0' ≤ c ∧ c ≤ '9' then some (c.toNat - '0'.toNat)
  else if 'a' ≤ c ∧ c ≤ 'f' then some (c.toNat - 'a'.toNat + 10)
  else if 'A' ≤ c ∧ c ≤ 'F' then some (c.toNat - 'A'.toNat + 10)
  else none

/-- The number with the given hexadecimal digits. -/
def hexNumber? (digits : List Char) : Option Nat :=
  digits.foldlM (fun n d => (hexValue? d).map (n * 16 + ·)) 0

/-- The character with a number; surrogates and numbers that are too large have none. -/
def charAt? (n : Nat) : Option Char :=
  if n < 0xD800 ∨ 0xDFFF < n ∧ n < 0x110000 then some (Char.ofNat n) else none

/-- Reads a character written as a number of `count` hexadecimal digits. -/
def readCode (count : Nat) (text : List Char) : Option (Char × List Char) := do
  let digits := text.take count
  guard (digits.length = count)
  let n ← hexNumber? digits
  let c ← charAt? n
  return (c, text.drop count)

/-- Reads an escape behind its backslash. -/
def readEscape : List Char → Option (Char × List Char)
  | '"' :: rest => some ('"', rest)
  | '\\' :: rest => some ('\\', rest)
  | 'b' :: rest => some ('\x08', rest)
  | 'e' :: rest => some ('\x1b', rest)
  | 'f' :: rest => some ('\x0c', rest)
  | 'n' :: rest => some ('\n', rest)
  | 'r' :: rest => some ('\r', rest)
  | 't' :: rest => some ('\t', rest)
  | 'x' :: rest => readCode 2 rest
  | 'u' :: rest => readCode 4 rest
  | 'U' :: rest => readCode 8 rest
  | _ => none

/-- Removes a line break at the front. -/
def dropLineBreak : List Char → List Char
  | '\n' :: rest => rest
  | '\r' :: '\n' :: rest => rest
  | rest => rest

/-- Removes blanks and line breaks at the front. -/
def dropBlankLines : List Char → List Char
  | ' ' :: rest => dropBlankLines rest
  | '\t' :: rest => dropBlankLines rest
  | '\n' :: rest => dropBlankLines rest
  | '\r' :: '\n' :: rest => dropBlankLines rest
  | rest => rest

/-- What follows a backslash at the end of a line: the next character that is no blank. -/
def joinLines? (text : List Char) : Option (List Char) :=
  let rest := text.dropWhile Text.isTab
  let next := dropLineBreak rest
  if next.length < rest.length then some (dropBlankLines next) else none

/-- Puts a character in front of a text that was read. -/
def consRead (c : Char) : Option (List Char × List Char) → Option (List Char × List Char)
  | some (cs, rest) => some (c :: cs, rest)
  | none => none

/-- Reads a text up to its closing double quote. -/
def readBasic : Nat → List Char → Option (List Char × List Char)
  | 0, _ => none
  | fuel + 1, text =>
    match text with
    | '"' :: rest => some ([], rest)
    | '\\' :: rest =>
      match readEscape rest with
      | some (c, rest) => consRead c (readBasic fuel rest)
      | none => none
    | c :: rest => if isPlain c then consRead c (readBasic fuel rest) else none
    | [] => none

/-- Reads a text up to its closing single quote. -/
def readLiteral : List Char → Option (List Char × List Char)
  | '\'' :: rest => some ([], rest)
  | c :: rest => if isPlain c then consRead c (readLiteral rest) else none
  | [] => none

/-- The part of a run of quotes that belongs to the text before its three closing quotes:
at most two. -/
def closingQuotes (quote : Char) (text : List Char) : Option (List Char × List Char) :=
  let run := (text.takeWhile (· == quote)).length
  if run < 3 then none
  else
    let inside := min (run - 3) 2
    some (List.replicate inside quote, text.drop (inside + 3))

/-- Reads a text over several lines up to its three closing double quotes. -/
def readLongBasic : Nat → List Char → Option (List Char × List Char)
  | 0, _ => none
  | fuel + 1, text =>
    match closingQuotes '"' text with
    | some read => some read
    | none =>
      match text with
      | '\\' :: rest =>
        match joinLines? rest with
        | some rest => readLongBasic fuel rest
        | none =>
          match readEscape rest with
          | some (c, rest) => consRead c (readLongBasic fuel rest)
          | none => none
      | '\n' :: rest => consRead '\n' (readLongBasic fuel rest)
      | '\r' :: '\n' :: rest => consRead '\r' (consRead '\n' (readLongBasic fuel rest))
      | c :: rest => if isPlain c then consRead c (readLongBasic fuel rest) else none
      | [] => none

/-- Reads a text over several lines up to its three closing single quotes. -/
def readLongLiteral : Nat → List Char → Option (List Char × List Char)
  | 0, _ => none
  | fuel + 1, text =>
    match closingQuotes '\'' text with
    | some read => some read
    | none =>
      match text with
      | '\n' :: rest => consRead '\n' (readLongLiteral fuel rest)
      | '\r' :: '\n' :: rest => consRead '\r' (consRead '\n' (readLongLiteral fuel rest))
      | c :: rest => if isPlain c then consRead c (readLongLiteral fuel rest) else none
      | [] => none

/-- Reads a text on one line, with its quotes. -/
def readShort : List Char → Option (List Char × List Char)
  | '"' :: rest => readBasic (rest.length + 1) rest
  | '\'' :: rest => readLiteral rest
  | _ => none

/-- Reads a text of any kind, with its quotes. -/
def readText : List Char → Option (List Char × List Char)
  | '"' :: '"' :: '"' :: rest =>
    let rest := dropLineBreak rest
    readLongBasic (rest.length + 1) rest
  | '\'' :: '\'' :: '\'' :: rest =>
    let rest := dropLineBreak rest
    readLongLiteral (rest.length + 1) rest
  | text => readShort text

end StylePrune.Toml
