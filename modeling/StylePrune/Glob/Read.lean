import StylePrune.Glob.Basic

/-!
# Reading glob patterns

The text of a pattern is read from left to right. The first fault met is the one
reported; a group or class that stays open is met at the end.
-/

namespace StylePrune.Glob

/-- Why a text is no pattern. -/
inductive Fault where
  /-- A class has no closing bracket. -/
  | unclosedClass
  /-- The upper end of an interval is below its lower end. -/
  | invalidRange (low high : Char)
  /-- A group is closed that is not open. -/
  | unopenedGroup
  /-- A group has no closing brace. -/
  | unclosedGroup
  /-- Nothing follows the last backslash. -/
  | danglingEscape
deriving DecidableEq, Repr

/-- The text of a brace that is missing, and how to write the other one for itself. -/
def Fault.missing (brace other : Char) : String :=
  "missing '" ++ brace.toString ++ "' (maybe escape '" ++ other.toString ++ "' with '[" ++
    other.toString ++ "]'?)"

/-- The text of a fault. -/
def Fault.reason : Fault → String
  | .unclosedClass => "unclosed character class; missing ']'"
  | .invalidRange low high =>
    "invalid range; '" ++ low.toString ++ "' > '" ++ high.toString ++ "'"
  | .unopenedGroup => "unopened alternate group; " ++ missing '{' '}'
  | .unclosedGroup => "unclosed alternate group; " ++ missing '}' '{'
  | .danglingEscape => "dangling '\\'"

/-- The full text of a fault of a pattern. -/
def Fault.message (fault : Fault) (pattern : String) : String :=
  "error parsing glob '" ++ pattern ++ "': " ++ fault.reason

/-- The intervals that the inside of a class lists, where `low` to `high` was listed
last. A dash between two characters moves the upper end of the last interval; a dash at
the end stands for itself. -/
def intervals (low high : Char) : List Char → Except Fault (List (Char × Char))
  | [] => .ok [(low, high)]
  | ['-'] => .ok [(low, high), ('-', '-')]
  | '-' :: c :: rest =>
    if c < low then .error (.invalidRange low c) else intervals low c rest
  | c :: rest => return (low, high) :: (← intervals c c rest)

/-- Reads a class behind its opening bracket, and gives what follows its closing bracket.
The first character inside never closes the class. -/
def readClass (text : List Char) : Except Fault (ByteClass × List Char) := do
  let negated := text.head? = some '!' ∨ text.head? = some '^'
  match if negated then text.tail else text with
  | [] => .error .unclosedClass
  | c :: rest =>
    let listed ← intervals c c (rest.takeWhile (· != ']'))
    match rest.dropWhile (· != ']') with
    | [] => .error .unclosedClass
    | _ :: after =>
      return (⟨negated, listed.flatMap fun (low, high) => byteRanges low high⟩, after)

/-- Behind a class there is less left to read. -/
theorem length_lt_of_readClass {text after : List Char} {set : ByteClass}
    (h : readClass text = .ok (set, after)) : after.length < text.length := by
  unfold readClass at h
  dsimp only at h
  split at h
  · simp at h
  · rename_i c rest hbody
    have hlength : rest.length < text.length := by
      split at hbody
      · have := congrArg List.length hbody
        simp only [List.length_tail, List.length_cons] at this
        omega
      · simp [hbody]
    cases hlisted : intervals c c (rest.takeWhile (· != ']')) with
    | error fault => simp [hlisted, bind, Except.bind] at h
    | ok listed =>
      simp only [hlisted, bind, Except.bind] at h
      split at h
      · simp at h
      · rename_i d tail htail
        have hdrop : (rest.dropWhile (· != ']')).length ≤ rest.length :=
          (List.dropWhile_suffix _).length_le
        rw [htail] at hdrop
        simp only [pure, Except.pure, Except.ok.injEq, Prod.mk.injEq] at h
        rw [← h.2]
        simp only [List.length_cons] at hdrop
        omega

/-- The branches of a group that is being read, last first. -/
structure Level where
  /-- The branches that are finished. -/
  closed : List (List Piece) := []
  /-- The pieces of the branch that is being read, last first. -/
  branch : List Piece := []

/-- What was read so far: the innermost level and those around it. -/
structure Draft where
  level : Level := {}
  outer : List Level := []

namespace Draft

/-- Whether a group is open. -/
def inGroup (draft : Draft) : Bool :=
  !draft.outer.isEmpty

/-- Adds a piece to the branch that is being read. -/
def push (draft : Draft) (piece : Piece) : Draft :=
  { draft with level.branch := piece :: draft.level.branch }

/-- Opens a group. -/
def openGroup (draft : Draft) : Draft :=
  { level := {}, outer := draft.level :: draft.outer }

/-- Starts the next branch of a group. -/
def nextBranch (draft : Draft) : Draft :=
  { draft with level := { closed := draft.level.branch.reverse :: draft.level.closed } }

/-- The branches of the innermost level in order. -/
def branches (draft : Draft) : List (List Piece) :=
  (draft.level.branch.reverse :: draft.level.closed).reverse

/-- Closes the innermost group. -/
def closeGroup (draft : Draft) : Except Fault Draft :=
  match draft.outer with
  | [] => .error .unopenedGroup
  | level :: outer => .ok (Draft.push ⟨level, outer⟩ (.choice draft.branches))

/-- Replaces the last piece by one for whole segments, unless it is one already. -/
def toSegments (draft : Draft) (piece : Piece) : Draft :=
  match draft.level.branch with
  | .leadingSegments :: _ | .trailingSegments :: _ => draft
  | branch => { draft with level.branch := piece :: branch.tail }

/-- Reads two stars between the characters `prev?` and `next?`, and tells whether the
slash behind them belongs to them. Between slashes, or where a branch begins or ends in
place of one, they stand for whole segments; elsewhere they are two stars. -/
def pushTwoStars (draft : Draft) (prev? next? : Option Char) : Draft × Bool :=
  let twoStars := ((draft.push .anyBytes).push .anyBytes, false)
  if draft.level.branch.isEmpty then
    match next? with
    | none => (draft.push .leadingSegments, false)
    | some '/' => (draft.push .leadingSegments, true)
    | some _ => twoStars
  else if prev? = some '/' ∨ draft.inGroup ∧ (prev? = some ',' ∨ prev? = some '{') then
    match next? with
    | none => (draft.toSegments .trailingSegments, false)
    | some '/' => (draft.toSegments .innerSegments, true)
    | some c =>
      if draft.inGroup ∧ (c = ',' ∨ c = '}') then
        (draft.toSegments .trailingSegments, false)
      else twoStars
  else
    twoStars

end Draft

/-- Reads the rest of a pattern behind the character `prev?`. -/
def readPieces (prev? : Option Char) (draft : Draft) (text : List Char) :
    Except Fault Draft :=
  match text with
  | [] => .ok draft
  | '?' :: rest => readPieces (some '?') (draft.push .anyByte) rest
  | '*' :: '*' :: rest =>
    match draft.pushTwoStars prev? rest.head?, rest with
    | (draft, true), _ :: rest => readPieces (some '/') draft rest
    | (draft, _), rest => readPieces (some '*') draft rest
  | '*' :: rest => readPieces (some '*') (draft.push .anyBytes) rest
  | '[' :: rest =>
    match h : readClass rest with
    | .error fault => .error fault
    | .ok (set, after) =>
      have := length_lt_of_readClass h
      readPieces (some ']') (draft.push (.oneOf set)) after
  | '{' :: rest => readPieces (some '{') draft.openGroup rest
  | '}' :: rest =>
    match draft.closeGroup with
    | .error fault => .error fault
    | .ok draft => readPieces (some '}') draft rest
  | ',' :: rest =>
    readPieces (some ',')
      (if draft.inGroup then draft.nextBranch else draft.push (.literal ',')) rest
  | ['\\'] => .error .danglingEscape
  | '\\' :: c :: rest => readPieces (some c) (draft.push (.literal c)) rest
  | c :: rest => readPieces (some c) (draft.push (.literal c)) rest
termination_by text.length

/-- The pattern that a text stands for. -/
def read (text : String) : Except Fault Glob := do
  let draft ← readPieces none {} text.toList
  if draft.inGroup then .error .unclosedGroup else .ok ⟨draft.level.branch.reverse⟩

end StylePrune.Glob
