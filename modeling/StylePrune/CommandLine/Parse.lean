import StylePrune.CommandLine.Argument

/-!
# Reading the command line

Words are read from left to right. An option waits for its value, and folders gather,
until the next argument that is known by name; only then are they entered. So a value is
judged before what follows it, except that a word which names no argument is refused at
once.
-/

namespace StylePrune.CommandLine

/-- What a run was asked to do. -/
structure Invocation where
  folders : List String := []
  /-- Whether to remove what is found. -/
  remove : Bool := false
  /-- The report whose keys are to be removed. -/
  removeJson : Option String := none
  overrides : Overrides := {}
  verbose : Bool := false
  quiet : Bool := false
deriving DecidableEq, Repr

/-- What was read so far. -/
structure Draft where
  /-- The arguments that are entered, with their values, in the order they were first
  given. -/
  given : List (Argument × List String) := []
  /-- The argument that still gathers values. -/
  pending : Option (Argument × List String) := none

namespace Draft

/-- Whether an argument is entered. -/
def isGiven (draft : Draft) (argument : Argument) : Bool :=
  (draft.given.lookup argument).isSome

/-- Judges a value of an argument. -/
def checkValue (argument : Argument) (value : String) : Except UsageError Unit :=
  if value = "" then .error (.missingValue argument)
  else if argument.choices ≠ [] ∧ value ∉ argument.choices then
    .error (.invalidValue argument value)
  else .ok ()

/-- Enters an argument with its values. -/
def enter (draft : Draft) (argument : Argument) (values : List String) :
    Except UsageError Draft := do
  match argument with
  | .help => throw .help
  | .version => throw .version
  | .folders =>
    values.forM (checkValue .folders)
    if draft.isGiven .folders then
      return { draft with
        given := draft.given.map fun (a, vs) =>
          if a = .folders then (a, vs ++ values) else (a, vs) }
    else
      return { draft with given := draft.given ++ [(.folders, values)] }
  | argument =>
    if argument.takesValue ∧ values = [] then throw (.missingValue argument)
    if draft.isGiven argument then throw (.repeated argument)
    values.forM (checkValue argument)
    return { draft with given := draft.given ++ [(argument, values)] }

/-- Enters the argument that gathers values. -/
def settle (draft : Draft) : Except UsageError Draft :=
  match draft.pending with
  | none => .ok draft
  | some (argument, values) => enter { draft with pending := none } argument values

/-- Reads an argument by name, with the value behind an equals sign if there is one. -/
def readName (draft : Draft) (name : String) (value? : Option String) :
    Except UsageError Draft :=
  match Argument.ofName? name with
  | none => .error (.unknown ("--" ++ name))
  | some argument =>
    match argument.takesValue, value? with
    | true, some value => do (← draft.settle).enter argument [value]
    | true, none => do return { ← draft.settle with pending := some (argument, []) }
    | false, some value => .error (.extraValue argument value)
    | false, none => do (← draft.settle).enter argument []

/-- Reads flags by their letters. -/
def readLetters (draft : Draft) : List Char → Except UsageError Draft
  | [] => .ok draft
  | letter :: letters =>
    match Argument.ofLetter? letter with
    | none => .error (.unknown (String.ofList ['-', letter]))
    | some argument => do
      let draft ← (← draft.settle).enter argument []
      draft.readLetters letters

/-- Reads a folder. -/
def readFolder (draft : Draft) (word : String) : Except UsageError Draft :=
  match draft.pending with
  | some (.folders, folders) =>
    .ok { draft with pending := some (.folders, folders ++ [word]) }
  | _ => do return { ← draft.settle with pending := some (.folders, [word]) }

/-- Reads a word that is no name: the value that an option waits for, or a folder. -/
def readWord (draft : Draft) (word : String) : Except UsageError Draft :=
  match draft.pending with
  | some (argument, []) => .ok { draft with pending := some (argument, [word]) }
  | _ => draft.readFolder word

end Draft

/-- Splits a text at its first equals sign. -/
def splitValue (text : List Char) : String × Option String :=
  match text.dropWhile (· != '=') with
  | _ :: value => (String.ofList (text.takeWhile (· != '=')), some (String.ofList value))
  | [] => (String.ofList text, none)

/-- Reads the words of a command line. Behind two dashes every word is a folder. -/
def readWords (draft : Draft) : List String → Except UsageError Draft
  | [] => draft.settle
  | word :: words =>
    match word.toList with
    | ['-', '-'] => do (← words.foldlM Draft.readFolder draft).settle
    | '-' :: '-' :: text => do
      let (name, value?) := splitValue text
      readWords (← draft.readName name value?) words
    | '-' :: letter :: letters => do
      readWords (← draft.readLetters (letter :: letters)) words
    | _ => do readWords (← draft.readWord word) words

/-- The first argument that cannot be given together with others, with those others. -/
def firstConflict? (given : List Argument) : Option (Argument × List Argument) :=
  given.findSome? fun argument =>
    match given.filter argument.conflictsWith with
    | [] => none
    | others => some (argument, others)

/-- What the entered arguments ask for. -/
def Draft.invocation (draft : Draft) : Invocation :=
  let value? (argument : Argument) : Option String :=
    (draft.given.lookup argument).bind List.head?
  { folders := (draft.given.lookup .folders).getD []
    remove := draft.isGiven .remove
    removeJson := value? .removeJson
    overrides := {
      root := value? .root
      output := value? .output
      config := value? .config
      format := (value? .format).bind Format.ofName?
      color := (value? .color).bind Color.Policy.ofName? }
    verbose := draft.isGiven .verbose
    quiet := draft.isGiven .quiet }

/-- What a command line asks for. -/
def parse (words : List String) : Except UsageError Invocation := do
  let draft ← readWords {} words
  match firstConflict? (draft.given.map Prod.fst) with
  | some (argument, others) => throw (.conflict argument others)
  | none => return draft.invocation

end StylePrune.CommandLine
