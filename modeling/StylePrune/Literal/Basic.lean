import StylePrune.Literal.Lexeme
import StylePrune.Text.Bytes
import StylePrune.Text.Search

/-!
# Style literals

A style literal is the object that follows an opening marker such as
`StyleSheet.create({`. Its entries of interest are the top-level ones of the form
`name: { ... }`. The reader goes once over the lexemes behind the first marker: an `Entry`
says how much of `name : {` has been seen since the last separating comma, and the depth
of open braces says which commas and braces belong to the literal itself.
-/

namespace StylePrune

/-- An entry `name: { ... }` of a style literal, by byte offsets in the whole text. -/
structure KeySpan where
  /-- The identifier, or the inside of the quoted string. -/
  name : String
  /-- Where the key begins. -/
  start : Nat
  /-- Just behind the closing brace of the value. -/
  stop : Nat
  /-- Behind what trails the value, up to the separating comma or the end of the literal. -/
  entryEnd : Nat
deriving DecidableEq, Repr

/-- The first style literal of a text. -/
structure StyleLiteral where
  /-- Where the opening marker begins. -/
  start : Nat
  /-- Behind the closing `})`, or the size of the text when the literal is not closed. -/
  stop : Nat
  /-- The entries, in order. -/
  keys : List KeySpan
  /-- Whether the closing brace was found. -/
  terminated : Bool
deriving DecidableEq, Repr

namespace Literal

/-- How far the current entry has been read. -/
inductive Entry where
  /-- Nothing but white space and comments since the separator. -/
  | key
  /-- A name that begins at an offset. -/
  | name (name : String) (start : Nat)
  /-- A name and a colon. -/
  | value (name : String) (start : Nat)
  /-- Anything else. -/
  | other
deriving DecidableEq, Repr

/-- What the reader of a literal remembers between two lexemes. -/
structure Scan where
  /-- The braces open, the marker's own included. -/
  depth : Nat := 1
  /-- The state of the current entry. -/
  entry : Entry := .key
  /-- The key whose value is open. -/
  openKey : Option (String × Nat) := none
  /-- Whether the newest key still takes what follows it into its entry. -/
  trailing : Bool := false
  /-- Behind the last character that is not ASCII white space. -/
  edge : Nat
  /-- The keys found, the newest first. -/
  found : List KeySpan := []
deriving DecidableEq, Repr

/-- The name that a quoted key stands for: a final quote is left out, wherever the string
stops. -/
def quotedName (chars : List Char) : String :=
  let body := chars.tail
  String.ofList (if body.getLast? = chars.head? then body.dropLast else body)

namespace Scan

/-- The newest key ends its entry at the edge. -/
def closeEntry (s : Scan) : Scan :=
  match s.trailing, s.found with
  | true, key :: rest =>
    { s with trailing := false, found := { key with entryEnd := s.edge } :: rest }
  | _, _ => s

/-- A name stands at `pos`: it is the key of its entry if it comes first there. -/
def readName (s : Scan) (name : String) (pos : Nat) : Scan :=
  if s.depth = 1 then
    { s with entry := match s.entry with
                      | .key => .name name pos
                      | _ => .other }
  else
    s

/-- A lexeme that no entry of the form `name: { ... }` has in its head. -/
def readOther (s : Scan) : Scan :=
  if s.depth = 1 then { s with entry := .other } else s

/-- A brace opens the value of a key, or something nested. -/
def openBrace (s : Scan) : Scan :=
  let s :=
    if s.depth = 1 then
      match s.entry with
      | .value name start => { s with entry := .other, openKey := some (name, start) }
      | _ => { s with entry := .other }
    else
      s
  { s with depth := s.depth + 1 }

/-- A brace closes at `pos`, and the literal's own brace stays open. -/
def closeBrace (s : Scan) (pos : Nat) : Scan :=
  let s := { s with depth := s.depth - 1 }
  if s.depth = 1 then
    match s.openKey with
    | some (name, start) =>
      { s with
        openKey := none
        trailing := true
        found := ⟨name, start, pos + 1, pos + 1⟩ :: s.found }
    | none => s
  else
    s

/-- A comma at depth one begins the next entry. -/
def readComma (s : Scan) : Scan :=
  if s.depth = 1 then { s.closeEntry with entry := .key } else s

/-- A colon behind the name of an entry announces its value. -/
def readColon (s : Scan) : Scan :=
  if s.depth = 1 then
    { s with entry := match s.entry with
                      | .name name start => .value name start
                      | _ => .other }
  else
    s

/-- The effect of a lexeme at `pos` on what the reader remembers, its edge apart. -/
def read (s : Scan) (pos : Nat) (lexeme : Lexeme) : Scan :=
  match lexeme.kind with
  | .comment | .blank => s
  | .quoted => s.readName (quotedName lexeme.chars) pos
  | .word => s.readName (String.ofList lexeme.chars) pos
  | .template | .other => s.readOther
  | .opening => s.openBrace
  | .closing => s.closeBrace pos
  | .comma => s.readComma
  | .colon => s.readColon

/-- The edge behind a lexeme at `pos`. -/
def edgeAfter (s : Scan) (pos : Nat) (lexeme : Lexeme) : Nat :=
  if lexeme.kind = .blank then s.edge
  else pos + Text.size (Text.dropEndWhile Text.isAsciiBlank lexeme.chars)

/-- One step of the reader. -/
def step (s : Scan) (pos : Nat) (lexeme : Lexeme) : Scan :=
  { s.read pos lexeme with edge := s.edgeAfter pos lexeme }

end Scan

/-- How many bytes of `)` and `;`, with blanks in front of each, close a literal. -/
def closingSize (rest : List Char) : Nat :=
  match rest.dropWhile Text.isTab with
  | ')' :: inner =>
    let paren := Text.size (rest.takeWhile Text.isTab) + 1
    match inner.dropWhile Text.isTab with
    | ';' :: _ => paren + Text.size (inner.takeWhile Text.isTab) + 1
    | _ => paren
  | _ => 0

/-- Reads lexemes from `pos` on up to the brace that closes the literal. -/
def readEntries (start : Nat) (s : Scan) (pos : Nat) : List Lexeme → StyleLiteral
  | [] => ⟨start, pos, s.found.reverse, false⟩
  | lexeme :: rest =>
    if lexeme.kind = .closing ∧ s.depth = 1 then
      ⟨start, pos + 1 + closingSize (rest.flatMap Lexeme.chars), s.closeEntry.found.reverse,
        true⟩
    else
      readEntries start (s.step pos lexeme) (pos + Text.size lexeme.chars) rest

/-- The first style literal of a text, or nothing when the marker does not occur. -/
def find? (marker text : List Char) : Option StyleLiteral :=
  (Text.splitFirst marker text).map fun (front, rest) =>
    let start := Text.size front
    let pos := start + Text.size marker
    readEntries start ⟨1, .key, none, false, pos, []⟩ pos (lexemes rest)

/-- The default opening marker. -/
def defaultMarker : String := "StyleSheet.create(\x7b"

end Literal

/-- The first entry of a given name. -/
def StyleLiteral.key? (literal : StyleLiteral) (name : String) : Option KeySpan :=
  literal.keys.find? (·.name == name)

end StylePrune
