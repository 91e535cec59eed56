import StylePrune.Literal.Cut
import StylePrune.Proofs.Text.Octets
import StylePrune.StyleTable

/-!
# Reading a literal byte by byte

The reader of literals works on characters, so it can neither leave the text nor cut a
character in two.  The reader here does the same work on the bytes of the text, through
offsets, as a machine would do it, and each of its steps may fail: a byte may be asked for
where there is none, a text may be sliced at an offset that is out of place, the count of
open braces may have to go below zero, and a turn of the loop may not move on.
-/

namespace StylePrune.Literal.Octets

open Text

/-- Why a reader of bytes has to stop. -/
inductive Fault where
  /-- There is no byte at an offset. -/
  | octet (i : Nat)
  /-- A slice does not lie in the text, or its ends do not lie between characters. -/
  | slice (start stop : Nat)
  /-- There is no key of a number. -/
  | key (k : Nat)
  /-- More braces close than are open. -/
  | depth
  /-- The reader stays where it is. -/
  | stuck
deriving DecidableEq, Repr

/-! ## Single steps -/

/-- The byte at an offset. -/
def octetAt (bytes : List UInt8) (i : Nat) : Except Fault Char :=
  match octet? bytes i with
  | some c => .ok c
  | none => .error (.octet i)

/-- A slice of a text. -/
def slice (text : List Char) (start stop : Nat) : Except Fault (List Char) :=
  if start ≤ stop ∧ isBoundary text start ∧ isBoundary text stop then
    .ok (between start stop text)
  else
    .error (.slice start stop)

/-- The bytes from an offset on. -/
def bytesFrom (bytes : List UInt8) (i : Nat) : Except Fault (List UInt8) :=
  if i ≤ bytes.length then .ok (bytes.drop i) else .error (.slice i bytes.length)

/-- The offset behind the bytes of one class from an offset on, up to a limit. -/
def skipWhile (p : Char → Bool) (bytes : List UInt8) (limit i : Nat) : Except Fault Nat :=
  if i < limit then do
    if p (← octetAt bytes i) then skipWhile p bytes limit (i + 1) else pure i
  else
    pure i
termination_by limit - i

/-- The offset in front of the white space that ends at an offset. -/
def trimBack (bytes : List UInt8) : Nat → Except Fault Nat
  | 0 => pure 0
  | i + 1 => do if isAsciiBlank (← octetAt bytes i) then trimBack bytes i else pure (i + 1)

/-! ## Lexemes -/

/-- Where a comment ends that begins with two slashes at an offset. -/
def lineCommentEnd (bytes : List UInt8) (i : Nat) : Except Fault Nat := do
  match (← bytesFrom bytes i).findIdx? (Char.ofUInt8 · = '\n') with
  | some n => pure (i + n)
  | none => pure bytes.length

/-- The place of the first end of a comment. -/
def commentEndIdx? : List UInt8 → Option Nat
  | [] => none
  | b :: bytes =>
    if Char.ofUInt8 b = '*' ∧ octet? bytes 0 = some '/' then some 0
    else (commentEndIdx? bytes).map (· + 1)

/-- Where a comment ends that begins with a slash and a star at an offset. -/
def blockCommentEnd (bytes : List UInt8) (i : Nat) : Except Fault Nat := do
  match commentEndIdx? (← bytesFrom bytes (i + 2)) with
  | some n => pure (i + 2 + n + 2)
  | none => pure bytes.length

/-- Where a quoted string ends, read from an offset inside it. -/
def quotedEnd (bytes : List UInt8) (quote : Char) (i : Nat) : Except Fault Nat :=
  if i < bytes.length then do
    let c ← octetAt bytes i
    if c = '\\' then quotedEnd bytes quote (i + 2)
    else if c = '\n' then pure i
    else if c = quote then pure (i + 1)
    else quotedEnd bytes quote (i + 1)
  else
    pure bytes.length
termination_by bytes.length - i

/-- Where a template ends, read from an offset inside it with `inner` braces open. -/
def templateEnd (bytes : List UInt8) (inner i : Nat) : Except Fault Nat :=
  if i < bytes.length then do
    let c ← octetAt bytes i
    if c = '\\' then templateEnd bytes inner (i + 2)
    else if c = '$' ∧ inner = 0 ∧ octet? bytes (i + 1) = some '{' then
      templateEnd bytes 1 (i + 2)
    else if c = '{' ∧ 0 < inner then templateEnd bytes (inner + 1) (i + 1)
    else if c = '}' ∧ 0 < inner then templateEnd bytes (inner - 1) (i + 1)
    else if c = '`' ∧ inner = 0 then pure (i + 1)
    else templateEnd bytes inner (i + 1)
  else
    pure bytes.length
termination_by bytes.length - i

/-- The offset behind the `)` and `;` that follow the brace of a literal. -/
def closingEnd (bytes : List UInt8) (i : Nat) : Except Fault Nat := do
  let j ← skipWhile isTab bytes bytes.length i
  if octet? bytes j = some ')' then
    let k ← skipWhile isTab bytes bytes.length (j + 1)
    if octet? bytes k = some ';' then pure (k + 1) else pure (j + 1)
  else
    pure i

/-! ## The reader -/

/-- What the reader remembers between two turns. -/
structure State where
  depth : Nat := 1
  entry : Entry := .key
  openKey : Option (String × Nat) := none
  /-- The number of the key that still takes what follows it into its entry. -/
  trailing : Option Nat := none
  keys : List KeySpan := []
deriving DecidableEq, Repr

/-- What a turn of the reader comes to. -/
inductive Turn where
  | done (literal : StyleLiteral)
  | next (i : Nat) (s : State)
deriving DecidableEq, Repr

namespace State

/-- A name begins at an offset. -/
def readName (s : State) (name : String) (i : Nat) : State :=
  { s with entry := match s.entry with
                    | .key => .name name i
                    | _ => .other }

/-- Between braces, an entry is spoilt. -/
def readOther (s : State) : State :=
  if s.depth = 1 then { s with entry := .other } else s

def readColon (s : State) : State :=
  { s with entry := match s.entry with
                    | .name name start => .value name start
                    | _ => .other }

def openBrace (s : State) : State :=
  let s :=
    if s.depth = 1 then
      match s.entry with
      | .value name start => { s with entry := .other, openKey := some (name, start) }
      | _ => { s with entry := .other }
    else
      s
  { s with depth := s.depth + 1 }

/-- The newest key ends its entry in front of the white space at an offset. -/
def closeEntry (bytes : List UInt8) (s : State) (i : Nat) : Except Fault State :=
  match s.trailing with
  | none => pure s
  | some k =>
    match s.keys[k]? with
    | none => throw (.key k)
    | some key => do
      let edge ← trimBack bytes i
      pure { s with trailing := none, keys := s.keys.set k { key with entryEnd := edge } }

end State

/-- The offset of the quote that closes a string, or else where the string stops. -/
def quotedClose (bytes : List UInt8) (quote : Char) (i stop : Nat) : Except Fault Nat :=
  if i + 1 < stop then do
    if (← octetAt bytes (stop - 1)) = quote then pure (stop - 1) else pure stop
  else
    pure stop

/-- A quoted string begins at an offset. -/
def readQuoted (text : List Char) (quote : Char) (i : Nat) (s : State) :
    Except Fault Turn := do
  let stop ← quotedEnd (octets text) quote (i + 1)
  if s.depth = 1 then
    if s.entry = .key then
      let close ← quotedClose (octets text) quote i stop
      let name ← slice text (i + 1) close
      pure (.next stop (s.readName (String.ofList name) i))
    else
      pure (.next stop { s with entry := .other })
  else
    pure (.next stop s)

/-- A brace closes at an offset. -/
def readClosing (text : List Char) (start i : Nat) (s : State) : Except Fault Turn :=
  match s.depth with
  | 0 => throw .depth
  | 1 => do
    let s ← s.closeEntry (octets text) i
    let stop ← closingEnd (octets text) (i + 1)
    pure (.done ⟨start, stop, s.keys, true⟩)
  | 2 =>
    match s.openKey with
    | some (name, keyStart) =>
      pure (.next (i + 1)
        { s with
          depth := 1
          openKey := none
          trailing := some s.keys.length
          keys := s.keys ++ [⟨name, keyStart, i + 1, i + 1⟩] })
    | none => pure (.next (i + 1) { s with depth := 1 })
  | depth + 3 => pure (.next (i + 1) { s with depth := depth + 2 })

/-- A byte between braces. -/
def readOutside (text : List Char) (c : Char) (i : Nat) (s : State) :
    Except Fault Turn := do
  if c = ',' then
    let s ← s.closeEntry (octets text) i
    pure (.next (i + 1) { s with entry := .key })
  else if c = ':' then
    pure (.next (i + 1) s.readColon)
  else if isAsciiBlank c then
    pure (.next (i + 1) s)
  else if isWordStart c then
    let stop ← skipWhile isWordPart (octets text) (octets text).length i
    if s.entry = .key then
      let name ← slice text i stop
      pure (.next stop (s.readName (String.ofList name) i))
    else
      pure (.next stop { s with entry := .other })
  else
    pure (.next (i + 1) { s with entry := .other })

/-- One turn of the reader at an offset. -/
def turn (text : List Char) (start i : Nat) (s : State) : Except Fault Turn := do
  let c ← octetAt (octets text) i
  if c = '/' ∧ octet? (octets text) (i + 1) = some '/' then
    pure (.next (← lineCommentEnd (octets text) i) s)
  else if c = '/' ∧ octet? (octets text) (i + 1) = some '*' then
    pure (.next (← blockCommentEnd (octets text) i) s)
  else if c = '\'' ∨ c = '"' then
    readQuoted text c i s
  else if c = '`' then
    pure (.next (← templateEnd (octets text) 0 (i + 1)) s.readOther)
  else if c = '{' then
    pure (.next (i + 1) s.openBrace)
  else if c = '}' then
    readClosing text start i s
  else if 1 < s.depth then
    pure (.next (i + 1) s)
  else
    readOutside text c i s

/-- Takes turns from an offset on, up to the end of the literal or of the text. -/
def run (text : List Char) (start i : Nat) (s : State) : Except Fault StyleLiteral :=
  if i < (octets text).length then do
    match ← turn text start i s with
    | .done literal => pure literal
    | .next j s => if i < j then run text start j s else throw .stuck
  else
    pure ⟨start, (octets text).length, s.keys, false⟩
termination_by (octets text).length - i
decreasing_by
  simp only [length_octets] at *
  omega

/-- The first style literal of a text, or nothing when the marker does not occur. -/
def find? (marker text : List Char) : Except Fault (Option StyleLiteral) :=
  match splitFirst marker text with
  | none => pure none
  | some (front, _) => do
    pure (some (← run text (size front) (size front + size marker) {}))

/-! ## What the literal is used for -/

/-- The style table of a text, its residual, and what to tell about it. -/
def extract (file : Path) (marker text : List Char) :
    Except Fault (Extraction × List Log.Event) := do
  match ← find? marker text with
  | none => pure (⟨none, text⟩, [])
  | some literal =>
    let events ←
      if !literal.terminated then
        pure [.unterminated file]
      else do
        let back ← slice text literal.stop (size text)
        pure (if contains marker back then [Log.Event.repeated file] else [])
    let front ← slice text 0 literal.start
    let back ← slice text literal.stop (size text)
    let table : StyleTable :=
      ⟨file, StyleTable.firstOccurrences (literal.keys.map KeySpan.name),
        StyleTable.binding? front⟩
    pure (⟨some table, front ++ back⟩, events)

/-- Behind the blanks, one comma and the blanks behind it. -/
def separatorEnd (bytes : List UInt8) (stop i : Nat) : Except Fault Nat := do
  let rest ← skipWhile isTab bytes stop i
  if rest < stop then
    if (← octetAt bytes rest) = ',' then skipWhile isTab bytes stop (rest + 1)
    else pure rest
  else
    pure rest

/-- In front of the carriage return that ends a line, if there is one. -/
def returnStart (bytes : List UInt8) (start stop : Nat) : Except Fault Nat :=
  if start < stop then do
    if (← octetAt bytes (stop - 1)) = '\r' then pure (stop - 1) else pure stop
  else
    pure stop

/-- Cuts the entry between two offsets out of a text. -/
def strip (text : List Char) (start stop : Nat) : Except Fault (List Char) := do
  let front ← slice text 0 start
  let lineStart := size (upToLastLine front)
  let lead ← slice text lineStart start
  let back ← slice text stop (size text)
  let lineStop := stop + size (back.takeWhile (· != '\n'))
  let ending ← returnStart (octets text) stop lineStop
  let rest ← separatorEnd (octets text) ending stop
  let line ← slice text rest ending
  if trim line ≠ [] then
    pure ((← slice text 0 start) ++ (← slice text rest (size text)))
  else if trim lead = [] then
    let next := if lineStop < size text then lineStop + 1 else size text
    pure ((← slice text 0 lineStart) ++ (← slice text next (size text)))
  else
    pure (dropEndWhile isTab (← slice text 0 start) ++ (← slice text ending (size text)))

/-- Cuts the first entry of a name out of the first style literal of a text. -/
def cut? (marker text : List Char) (key : String) : Except Fault (Option (List Char)) := do
  match ← find? marker text with
  | none => pure none
  | some literal =>
    match literal.key? key with
    | none => pure none
    | some span => pure (some (← strip text span.start span.entryEnd))

end StylePrune.Literal.Octets
