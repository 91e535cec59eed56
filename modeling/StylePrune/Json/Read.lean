import StylePrune.Json.Number
import StylePrune.Text.Search

/-!
# Reading JSON

Readers for texts, lists and objects of a known shape. A text is read from left to right,
and the first thing that does not fit is told. The items of a list and the members of an
object are read by one loop: before each of them it is decided whether the brackets close
or another one follows.
-/

namespace StylePrune.Json

/-- The blanks of JSON. -/
def isBlank (c : Char) : Bool :=
  c == ' ' || c == '\n' || c == '\t' || c == '\r'

/-- What follows the blanks at the front. -/
def skip (text : List Char) : List Char :=
  text.dropWhile isBlank

/-- Skipping makes no text longer. -/
theorem length_skip_le (text : List Char) : (skip text).length ≤ text.length :=
  (List.dropWhile_suffix _).length_le

/-- A reader of something at the front of a text. -/
abbrev Reader (α : Type) := List Char → Except Fault (α × List Char)

/-- Whether a reader leaves less than it was given. -/
def Reader.Shrinks {α : Type} (read : Reader α) : Prop :=
  ∀ text a rest, read text = .ok (a, rest) → rest.length < text.length

/-- Reads the rest of a word, letter by letter. -/
def readWord : List Char → List Char → Except Fault (List Char)
  | [], text => .ok text
  | _ :: _, [] => .error ⟨.endInValue, 0⟩
  | w :: word, c :: text =>
    if c = w then readWord word text else .error (.next .expectedWord (c :: text))

/-- The complaint about a value of the wrong kind. The value is read as far as it takes
to name it. -/
def wrongKind (expected : String) (text : List Char) : Fault :=
  let wrong (found : String) (rest : List Char) : Fault :=
    .behind (.wrongKind found expected) rest
  let ofWord (found word : String) (text : List Char) : Fault :=
    match readWord word.toList text with
    | .ok rest => wrong found rest
    | .error fault => fault
  let ofNumber (negative : Bool) (text : List Char) : Fault :=
    match readNumber negative text with
    | .ok (found, rest) => wrong found rest
    | .error fault => fault
  match text with
  | 'n' :: rest => ofWord "null" "ull" rest
  | 't' :: rest => ofWord "boolean `true`" "rue" rest
  | 'f' :: rest => ofWord "boolean `false`" "alse" rest
  | '-' :: rest => ofNumber true rest
  | '"' :: rest =>
    match readText rest with
    | .ok (cs, rest) => wrong ("string " ++ Text.quoted (String.ofList cs)) rest
    | .error fault => fault
  | '[' :: _ => wrong "sequence" text
  | '{' :: _ => wrong "map" text
  | c :: _ => if c.isDigit then ofNumber false text else .next .expectedValue text
  | [] => .next .expectedValue text

/-- Reads a text. -/
def readString : Reader String := fun text =>
  match skip text with
  | [] => .error ⟨.endInValue, 0⟩
  | '"' :: rest =>
    match readText rest with
    | .ok (cs, rest) => .ok (String.ofList cs, rest)
    | .error fault => .error fault
  | rest => .error (wrongKind "a string" rest)

/-- What comes next between two brackets: their end, or a further part at the front of
what is left. -/
inductive Turn where
  | close (rest : List Char)
  | part (rest : List Char)

/-- Whether every part begins inside of what was left to read. -/
def Bounded (turn : Bool → List Char → Except Fault Turn) : Prop :=
  ∀ first text rest, turn first text = .ok (.part rest) → rest.length ≤ text.length

/-- Reads parts up to the closing bracket. All but the first have to be set off from the
one before. -/
def readParts {α : Type} (turn : Bool → List Char → Except Fault Turn)
    (bounded : Bounded turn) (read : Reader α) (shrinks : read.Shrinks) (first : Bool)
    (text : List Char) : Except Fault (List α × List Char) :=
  match hturn : turn first text with
  | .error fault => .error fault
  | .ok (.close rest) => .ok ([], rest)
  | .ok (.part rest) =>
    match hread : read rest with
    | .error fault => .error fault
    | .ok (a, rest') =>
      have := bounded _ _ _ hturn
      have := shrinks _ _ _ hread
      match readParts turn bounded read shrinks false rest' with
      | .error fault => .error fault
      | .ok (as, after) => .ok (a :: as, after)
termination_by text.length

/-- What comes next in a list. -/
def itemTurn (first : Bool) (text : List Char) : Except Fault Turn :=
  match skip text with
  | [] => .error ⟨.endInList, 0⟩
  | ']' :: rest => .ok (.close rest)
  | c :: rest =>
    if first then .ok (.part (c :: rest))
    else if c = ',' then
      match skip rest with
      | [] => .error ⟨.endInValue, 0⟩
      | ']' :: rest => .error (.next .trailingComma (']' :: rest))
      | rest => .ok (.part rest)
    else .error (.next .expectedCommaOrBracket (c :: rest))

/-- What comes next in an object. A member is read from behind the opening quote of its
key. -/
def memberTurn (first : Bool) (text : List Char) : Except Fault Turn :=
  match skip text with
  | [] => .error ⟨.endInObject, 0⟩
  | '}' :: rest => .ok (.close rest)
  | c :: rest =>
    if first then
      if c = '"' then .ok (.part rest) else .error (.next .keyNotText (c :: rest))
    else if c = ',' then
      match skip rest with
      | [] => .error ⟨.endInValue, 0⟩
      | '"' :: rest => .ok (.part rest)
      | '}' :: rest => .error (.next .trailingComma ('}' :: rest))
      | rest => .error (.next .keyNotText rest)
    else .error (.next .expectedCommaOrBrace (c :: rest))

/-- Items begin inside of what was left to read. -/
theorem bounded_itemTurn : Bounded itemTurn := by
  intro first text rest h
  have hle := length_skip_le text
  unfold itemTurn at h
  split at h
  · simp at h
  · simp at h
  · rename_i c tail hne hskip
    rw [hskip, List.length_cons] at hle
    split at h
    · simp only [Except.ok.injEq, Turn.part.injEq] at h
      simpa [← h] using hle
    · split at h
      · have hle' := length_skip_le tail
        split at h
        · simp at h
        · simp at h
        · simp only [Except.ok.injEq, Turn.part.injEq] at h
          rw [← h]
          omega
      · simp at h

/-- Members begin inside of what was left to read. -/
theorem bounded_memberTurn : Bounded memberTurn := by
  intro first text rest h
  have hle := length_skip_le text
  unfold memberTurn at h
  split at h
  · simp at h
  · simp at h
  · rename_i c tail hne hskip
    rw [hskip, List.length_cons] at hle
    split at h
    · split at h
      · simp only [Except.ok.injEq, Turn.part.injEq] at h
        rw [← h]
        omega
      · simp at h
    · split at h
      · have hle' := length_skip_le tail
        split at h
        · simp at h
        · rename_i hskip'
          simp only [Except.ok.injEq, Turn.part.injEq] at h
          rw [hskip', List.length_cons, h] at hle'
          omega
        · simp at h
        · simp at h
      · simp at h

/-- Parts that are read make what is left shorter, or leave it as it stands behind the
closing bracket. -/
theorem length_le_of_readParts {α : Type} {turn : Bool → List Char → Except Fault Turn}
    {bounded : Bounded turn}
    (closes : ∀ first text rest, turn first text = .ok (.close rest) →
      rest.length ≤ text.length)
    {read : Reader α} {shrinks : read.Shrinks} {first : Bool} {text : List Char}
    {as : List α} {after : List Char}
    (h : readParts turn bounded read shrinks first text = .ok (as, after)) :
    after.length ≤ text.length := by
  fun_induction readParts turn bounded read shrinks first text generalizing as after with
  | case1 => simp at h
  | case2 first text rest hturn =>
    simp only [Except.ok.injEq, Prod.mk.injEq] at h
    exact h.2 ▸ closes _ _ _ hturn
  | case3 => simp at h
  | case4 => simp at h
  | case5 first text rest hturn a rest' hread hle hlt as' after' hrest ih =>
    simp only [Except.ok.injEq, Prod.mk.injEq] at h
    have := ih hrest
    rw [← h.2]
    omega

/-- The closing bracket of a list lies inside of what was left to read. -/
theorem close_le_of_itemTurn {first : Bool} {text rest : List Char}
    (h : itemTurn first text = .ok (.close rest)) :
    rest.length ≤ text.length := by
  have hle := length_skip_le text
  unfold itemTurn at h
  split at h
  · simp at h
  · rename_i hskip
    simp only [Except.ok.injEq, Turn.close.injEq] at h
    rw [hskip, List.length_cons, h] at hle
    omega
  · split at h
    · simp at h
    · split at h
      · split at h <;> simp at h
      · simp at h

/-- The closing brace of an object lies inside of what was left to read. -/
theorem close_le_of_memberTurn {first : Bool} {text rest : List Char}
    (h : memberTurn first text = .ok (.close rest)) : rest.length ≤ text.length := by
  have hle := length_skip_le text
  unfold memberTurn at h
  split at h
  · simp at h
  · rename_i hskip
    simp only [Except.ok.injEq, Turn.close.injEq] at h
    rw [hskip, List.length_cons, h] at hle
    omega
  · split at h
    · split at h <;> simp at h
    · split at h
      · split at h <;> simp at h
      · simp at h

/-- Reads a list. -/
def readList {α : Type} (read : Reader α) (shrinks : read.Shrinks) :
    Reader (List α) := fun text =>
  match skip text with
  | [] => .error ⟨.endInValue, 0⟩
  | '[' :: rest => readParts itemTurn bounded_itemTurn read shrinks true rest
  | rest => .error (wrongKind "a sequence" rest)

/-- Reads a member of an object behind the opening quote of its key. -/
def readMember {α : Type} (read : Reader α) : Reader (String × α) := fun text =>
  match readText text with
  | .error fault => .error fault
  | .ok (key, rest) =>
    match skip rest with
    | [] => .error ⟨.endInObject, 0⟩
    | ':' :: rest =>
      match read rest with
      | .error fault => .error fault
      | .ok (a, rest) => .ok ((String.ofList key, a), rest)
    | rest => .error (.next .expectedColon rest)

/-- A text is read off the front. -/
theorem shrinks_readString : Reader.Shrinks readString := by
  intro text s after h
  have hle := length_skip_le text
  unfold readString at h
  split at h
  · simp at h
  · rename_i rest hskip
    split at h
    · rename_i cs rest' hread
      have := length_lt_of_readText hread
      simp only [Except.ok.injEq, Prod.mk.injEq] at h
      rw [hskip, List.length_cons] at hle
      rw [← h.2]
      omega
    · simp at h
  · simp at h

/-- A list is read off the front. -/
theorem shrinks_readList {α : Type} {read : Reader α} (shrinks : read.Shrinks) :
    (readList read shrinks).Shrinks := by
  intro text as after h
  have hle := length_skip_le text
  unfold readList at h
  split at h
  · simp at h
  · rename_i rest hskip
    have := length_le_of_readParts (fun _ _ _ => close_le_of_itemTurn) h
    rw [hskip, List.length_cons] at hle
    omega
  · simp at h

/-- A member is read off the front. -/
theorem shrinks_readMember {α : Type} {read : Reader α} (shrinks : read.Shrinks) :
    (readMember read).Shrinks := by
  intro text member after h
  unfold readMember at h
  split at h
  · simp at h
  · rename_i key rest hkey
    have hlt := length_lt_of_readText hkey
    have hle := length_skip_le rest
    split at h
    · simp at h
    · rename_i tail hskip
      rw [hskip] at hle
      split at h
      · simp at h
      · rename_i a tail' hread
        have hread := shrinks _ _ _ hread
        simp only [Except.ok.injEq, Prod.mk.injEq] at h
        simp only [List.length_cons] at hle
        rw [← h.2]
        omega
    · simp at h

/-- Reads an object. -/
def readObject {α : Type} (read : Reader α) (shrinks : read.Shrinks) :
    Reader (List (String × α)) := fun text =>
  match skip text with
  | [] => .error ⟨.endInValue, 0⟩
  | '{' :: rest =>
    readParts memberTurn bounded_memberTurn (readMember read) (shrinks_readMember shrinks)
      true rest
  | rest => .error (wrongKind "a map" rest)

/-- An object is read off the front. -/
theorem shrinks_readObject {α : Type} {read : Reader α} (shrinks : read.Shrinks) :
    (readObject read shrinks).Shrinks := by
  intro text members after h
  have hle := length_skip_le text
  unfold readObject at h
  split at h
  · simp at h
  · rename_i rest hskip
    have := length_le_of_readParts (fun _ _ _ => close_le_of_memberTurn) h
    rw [hskip, List.length_cons] at hle
    omega
  · simp at h

/-- Reads a whole text: nothing but blanks may be left. -/
def readAll {α : Type} (read : Reader α) (text : List Char) : Except Fault α :=
  match read text with
  | .error fault => .error fault
  | .ok (a, rest) =>
    match skip rest with
    | [] => .ok a
    | rest => .error (.next .trailingText rest)

/-- The line and column of a byte offset: the line counts from one, the column is the
number of bytes in front. -/
def position (text : List Char) (offset : Nat) : Nat × Nat :=
  let lines := Text.pieces (· == '\n') (Text.before offset text)
  (lines.length,
    offset - (lines.dropLast.map fun line => Text.size line + 1).foldr (· + ·) 0)

/-- The text of a fault. -/
def Fault.message (fault : Fault) (text : List Char) : String :=
  let (line, column) := position text (Text.size text - fault.left)
  s!"{fault.complaint.message} at line {line} column {column}"

end StylePrune.Json
