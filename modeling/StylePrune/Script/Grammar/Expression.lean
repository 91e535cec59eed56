import StylePrune.Script.Grammar.Type

/-!
# Expressions

Operators need no precedence here, since only membership in the grammar is decided: an
expression is a chain of operands with operators between them. What needs care is the
start of an arrow function, which looks like a parenthesized expression, and the type
arguments of a call, which look like comparisons.
-/

namespace StylePrune.Script

/-- Reads an expression without top-level commas. -/
def assignmentOf (reader : Reader) : Parser Unit := do
  let _ ← reader .assignment

/-- Reads an expression. -/
def expressionOf (reader : Reader) : Parser Unit := do
  let _ ← reader .expression

/-- Reads a block. -/
def blockOf (reader : Reader) : Parser Unit := do
  let _ ← reader .block

/-- Whether an expression can begin with a token. Words with a meaning in some places
only, such as `of` or `is`, are names everywhere else. -/
def Token.startsExpression : Token → Bool
  | .word w _ => w ∉ ["in", "instanceof", "extends", "else", "case", "default"]
  | .privateName | .number | .text _ | .template _
  | .openBrace | .openParen | .openBracket | .sign | .step
  | .bang | .tilde | .plus | .minus | .slash | .slashEquals | .less => true
  | _ => false

/-- Reads arguments with their parentheses. -/
def arguments (reader : Reader) : Parser Unit := do
  expect .openParen
  commaList .closeParen do
    let _ ← eat .spread
    assignmentOf reader

/-! ### Functions and classes -/

/-- Reads a function from its type parameters on. A body may be missing where
declarations may. -/
def functionTail (reader : Reader) (bodyOptional : Bool) : Parser Unit :=
  enclosed do
    typeParameters reader
    parameters reader
    typeClause reader
    if ← isAt .openBrace then
      blockOf reader
    else if bodyOptional && (← hasTypes) then
      endStatement
    else
      fail

/-- Reads a function from the word `function` on. -/
def functionExpression (reader : Reader) : Parser Unit := do
  expectWord "function"
  let _ ← eat .star
  if ← isAtIdentifier then advance
  functionTail reader false

/-- The words that may stand in front of a class member. -/
def memberModifiers : List String :=
  ["public", "private", "protected", "static", "abstract", "override", "readonly",
    "declare", "accessor", "async", "get", "set"]

/-- Reads the modifiers of a class member or of a method: words that a member's key
follows. -/
def modifiers (words : List String) : Parser Unit := do
  repeatWhile do
    if ← isAtWordOf words then
      match ← following with
      | (.word _ _, _) | (.text _, _) | (.number, _) | (.openBracket, _)
      | (.privateName, _) | (.star, _) =>
        advance
        return true
      | _ => return false
    else
      return false
  let _ ← eat .star

/-- Reads an index signature of a class. -/
def indexSignature (reader : Reader) : Parser Unit :=
  enclosed do
    expect .openBracket
    let _ ← identifier
    expect .colon
    typeOf reader
    expect .closeBracket

/-- Reads a member of a class. -/
def classMember (reader : Reader) : Parser Unit := do
  decorators reader
  if (← isAtWord "static") && (← following).1 = .openBrace then
    advance
    blockOf reader
  else
    modifiers memberModifiers
    if (← hasTypes) && (← looksLike (indexSignature reader)) then
      indexSignature reader
    else
      memberKey reader
    if ← hasTypes then
      unless ← eat .question do
        let _ ← eat .bang
    if (← isAt .openParen) || ((← hasTypes) && (← isAt .less)) then
      functionTail reader true
    else
      typeClause reader
      initializer reader
      endStatement

/-- Reads a class from the word `class` on. -/
def classTail (reader : Reader) : Parser Unit := do
  expectWord "class"
  if (← isAtIdentifier) && !(← isAtWord "implements") then advance
  typeParameters reader
  if ← eatWord "extends" then
    let _ ← reader .callee
    if ← hasTypes then optionalTypeArguments reader
  if ← hasTypes then
    if ← eatWord "implements" then
      repeatWhile do
        typeOf reader
        eat .comma
  expect .openBrace
  enclosed <| repeatWhile do
    if ← eat .closeBrace then
      return false
    unless ← eat .semicolon do classMember reader
    return true

/-! ### Literals -/

/-- Reads an array literal from behind its bracket. -/
def arrayLiteral (reader : Reader) : Parser Shape := do
  let fits ← commaAll .closeBracket do
    if ← isAt .comma then
      return true
    let _ ← eat .spread
    return (← reader .assignment).fitsPattern
  return if fits then .pattern else .other

/-- Reads a property of an object literal; tells whether a pattern may have it. -/
def property (reader : Reader) : Parser Bool := do
  if ← eat .spread then
    return (← reader .assignment).fitsPattern
  let shorthand := (← isAtIdentifier) && (match (← following).1 with
    | .comma | .closeBrace | .equals => true
    | _ => false)
  if shorthand then
    advance
    initializer reader
    return true
  modifiers ["async", "get", "set"]
  memberKey reader
  if ← eat .colon then
    return (← reader .assignment).fitsPattern
  functionTail reader false
  return false

/-- Reads an object literal from behind its brace. -/
def objectLiteral (reader : Reader) : Parser Shape := do
  let fits ← commaAll .closeBrace (property reader)
  return if fits then .pattern else .other

/-- Reads a regular expression, whose slash is the current token. -/
def regularExpression : Parser Unit := do
  let s ← get
  match readRegex false (s.here.drop 1) with
  | some rest => set (s.load rest)
  | none => fail

/-! ### Operands -/

/-- Reads `import(...)` or `import.meta`. -/
def importExpression (reader : Reader) : Parser Unit := do
  expectWord "import"
  if ← eat .dot then
    let name ← anyWord
    if name ≠ "meta" then
      unless ← isAt .openParen do fail
      arguments reader
  else
    unless ← isAt .openParen do fail
    if (← following).1 = .closeParen then fail
    arguments reader

/-- Reads a name, a literal, or an expression in brackets. -/
def primary (reader : Reader) : Parser Shape := do
  match ← token with
  | .text _ | .number =>
    advance
    return .other
  | .template _ =>
    template (expressionOf reader)
    return .other
  | .slash | .slashEquals =>
    regularExpression
    return .other
  | .openParen =>
    advance
    let shape ← enclosed (reader .expression)
    expect .closeParen
    return if shape = .target then .target else .other
  | .openBracket =>
    advance
    arrayLiteral reader
  | .openBrace =>
    advance
    objectLiteral reader
  | .less =>
    unless ← hasMarkup do fail
    let _ ← enclosed (reader .markup)
    advance
    return .other
  | .sign =>
    decorators reader
    classTail reader
    return .other
  | .privateName =>
    advance
    unless ← isAtWord "in" do fail
    return .other
  | .word "function" true =>
    functionExpression reader
    return .other
  | .word "class" true =>
    classTail reader
    return .other
  | .word "import" true =>
    importExpression reader
    return .other
  | .word w plain =>
    if plain && w ∈ ["this", "super", "null", "true", "false"] then
      advance
      return .other
    if plain && w = "async" && (← following) = (.word "function" true, false) then
      advance
      functionExpression reader
      return .other
    let _ ← identifier
    return .target
  | _ => fail

/-- Reads type arguments in an expression, if what follows them shows that they are no
comparison. -/
def callTypeArguments (reader : Reader) : Parser Unit := do
  typeArguments reader
  if ← isAtWordOf ["as", "satisfies"] then return
  match ← token with
  | .openParen | .template _ => return
  | .less | .greater | .plus | .minus => fail
  | t => if t.startsExpression && !(← newlineBefore) then fail

/-- Reads one access behind an operand: a member, an index, a template, a non-null mark
or type arguments. -/
def access (reader : Reader) (shape : Shape) : Parser (Shape × Bool) := do
  match ← token with
  | .dot =>
    advance
    match ← token with
    | .privateName => advance
    | _ =>
      let _ ← anyWord
    return (.target, true)
  | .openBracket =>
    advance
    enclosed (expressionOf reader)
    expect .closeBracket
    return (.target, true)
  | .template _ =>
    template (expressionOf reader)
    return (.other, true)
  | .bang =>
    if (← hasTypes) && !(← newlineBefore) then
      advance
      return (shape, true)
    else
      return (shape, false)
  | .less =>
    if ← hasTypes then
      if (← attempt (callTypeArguments reader)).isSome then
        return (.other, true)
    return (shape, false)
  | _ => return (shape, false)

/-- Reads what follows `new`, from the word on: nested news, accesses and arguments. -/
def newExpression (reader : Reader) : Parser Shape := do
  expectWord "new"
  if ← eat .dot then
    expectWord "target"
    return .other
  if ← isAtWord "new" then
    let _ ← reader .callee
    return .other
  let shape ← primary reader
  let _ ← foldWhile shape (access reader)
  if ← isAt .openParen then arguments reader
  return .other

/-- Reads one link of an optional chain, from behind its mark. -/
def optionalLink (reader : Reader) : Parser Unit := do
  match ← token with
  | .openBracket =>
    advance
    enclosed (expressionOf reader)
    expect .closeBracket
  | .openParen => arguments reader
  | .less =>
    typeArguments reader
    arguments reader
  | .privateName => advance
  | .template _ => template (expressionOf reader)
  | _ =>
    let _ ← anyWord

/-- Reads an operand with the accesses and calls behind it. -/
def calleeRule (reader : Reader) : Parser Shape := do
  let shape ← if ← isAtWord "new" then newExpression reader else primary reader
  let (shape, chained) ← foldWhile (shape, false) fun (shape, chained) => do
    match ← token with
    | .openParen =>
      arguments reader
      return ((.other, chained), true)
    | .questionDot =>
      advance
      optionalLink reader
      return ((.other, true), true)
    | _ =>
      let (shape, more) ← access reader shape
      return ((shape, chained), more)
  return if chained then .other else shape

/-- Reads an operand with `++` or `--` behind it. -/
def postfixOperand (reader : Reader) : Parser Shape := do
  let shape ← reader .callee
  if (← isAt .step) && !(← newlineBefore) then
    if shape ≠ .target then fail
    advance
    return .other
  else
    return shape

/-- Reads an operand with the operators in front of it. -/
def unaryRule (reader : Reader) : Parser Shape := do
  let operand : Parser Shape := do
    advance
    let _ ← reader .unary
    return .other
  match ← token with
  | .bang | .tilde | .plus | .minus => operand
  | .step =>
    advance
    if (← reader .unary) ≠ .target then fail
    return .other
  | .less =>
    if (← hasTypes) && !(← hasMarkup) then
      advance
      enclosed (typeOf reader)
      expect .greater
      reader .unary
    else
      postfixOperand reader
  | .word w true =>
    if w ∈ ["typeof", "void", "delete"] then
      operand
    else if w = "await" && (← following).1.startsExpression then
      operand
    else
      postfixOperand reader
  | _ => postfixOperand reader

/-! ### Operators -/

/-- The operator that begins with an angle bracket; `true` if it assigns. -/
def angleOperator? : List Char → Option (Bool × List Char)
  | '<' :: '<' :: '=' :: cs => some (true, cs)
  | '<' :: '<' :: cs => some (false, cs)
  | '<' :: '=' :: cs => some (false, cs)
  | '<' :: cs => some (false, cs)
  | '>' :: '>' :: '>' :: '=' :: cs => some (true, cs)
  | '>' :: '>' :: '>' :: cs => some (false, cs)
  | '>' :: '>' :: '=' :: cs => some (true, cs)
  | '>' :: '>' :: cs => some (false, cs)
  | '>' :: '=' :: cs => some (false, cs)
  | '>' :: cs => some (false, cs)
  | _ => none

/-- Reads an operator with angle brackets that assigns, or one that does not. -/
def angleOperator (assigns : Bool) : Parser Bool := do
  let s ← get
  match angleOperator? s.here with
  | some (a, rest) =>
    if a = assigns then
      set (s.load rest)
      return true
    else
      return false
  | none => return false

/-- Reads an operator between two operands, if it is there. -/
def binaryOperator : Parser Bool := do
  match ← token with
  | .operator | .pipe | .ampersand | .plus | .minus | .star | .slash =>
    advance
    return true
  | .less | .greater => angleOperator false
  | .word "instanceof" true =>
    advance
    return true
  | .word "in" true =>
    if (← get).noIn then
      return false
    else
      advance
      return true
  | _ => return false

/-- Reads operands with operators between them. An assertion of a type is taken in every
dialect. -/
def operands (reader : Reader) : Parser Shape := do
  let shape ← reader .unary
  foldWhile shape fun shape => do
    if (← isAtWordOf ["as", "satisfies"]) && !(← newlineBefore) then
      advance
      typeOf reader
      return (if shape = .target then .target else .other, true)
    else if ← binaryOperator then
      let _ ← reader .unary
      return (.other, true)
    else
      return (shape, false)

/-- Reads an assignment operator, if it is there; `some true` for the plain one. -/
def assignmentOperator : Parser (Option Bool) := do
  match ← token with
  | .equals =>
    advance
    return some true
  | .assignOperator | .slashEquals =>
    advance
    return some false
  | .less | .greater => return if ← angleOperator true then some false else none
  | _ => return none

/-! ### Arrow functions -/

/-- Whether an arrow function begins here. -/
inductive Guess where
  | yes
  | no
  | maybe
deriving DecidableEq, Repr

/-- Guesses from the tokens behind an opening parenthesis. -/
def guessInParens : Parser Guess := do
  match ← token with
  | .closeParen =>
    advance
    match ← token with
    | .arrow | .colon | .openBrace => return .yes
    | _ => return .no
  | .openBracket | .openBrace | .sign => return .maybe
  | .spread => return .yes
  | .word w _ =>
    if w ∈ ["public", "private", "protected", "readonly", "override"] then
      if let (.word next _, _) ← following then
        return if next = "as" then .no else .yes
    if w ∈ reservedWords ∧ w ≠ "this" then
      return .no
    advance
    match ← token with
    | .colon => return .yes
    | .question =>
      advance
      match ← token with
      | .colon | .comma | .equals | .closeParen => return .yes
      | _ => return .no
    | .comma | .equals | .closeParen => return .maybe
    | _ => return .no
  | _ => return .no

/-- Guesses from the tokens behind an opening angle bracket. -/
def guessInAngles : Parser Guess := do
  match ← token with
  | .word w _ =>
    if w ∈ reservedWords ∧ w ≠ "const" then
      return .no
    unless ← hasMarkup do return .maybe
    advance
    match ← token with
    | .word "extends" _ =>
      advance
      match ← token with
      | .equals | .greater | .slash => return .no
      | _ => return .yes
    | .comma | .equals => return .yes
    | _ => return .no
  | _ => return .no

/-- Guesses whether an arrow function with parentheses begins here. -/
def guessArrow : Parser Guess :=
  lookAhead do
    if ← isAtWord "async" then
      advance
      if ← newlineBefore then
        return .no
    match ← token with
    | .openParen =>
      advance
      guessInParens
    | .less =>
      advance
      guessInAngles
    | _ => return .no

/-- Reads an arrow function up to its arrow; tells whether it has a result type. -/
def arrowHead (reader : Reader) : Parser Bool := do
  let _ ← eatWord "async"
  typeParameters reader
  parameters reader
  let typed := (← hasTypes) && (← isAt .colon)
  enclosed (typeClause reader)
  expect .arrow
  return typed

/-- Reads the body of an arrow function. -/
def arrowBody (reader : Reader) : Parser Unit := do
  if ← isAt .openBrace then
    enclosed (blockOf reader)
  else
    assignmentOf reader

/-- Reads an arrow function whose head may turn out to be something else. In front of a
colon that belongs to a conditional, an arrow function with a result type has to be
followed by that colon. -/
def possibleArrow (reader : Reader) : Parser Bool := do
  let outer ← get
  match ← attempt (arrowHead reader) with
  | none => return false
  | some typed =>
    if typed && outer.beforeColon then
      set outer
      let whole : Parser Unit := do
        let _ ← arrowHead reader
        arrowBody reader
        unless ← isAt .colon do fail
      return (← attempt whole).isSome
    else
      arrowBody reader
      return true

/-- Reads an arrow function with a single name in front of its arrow, if one is there. -/
def simpleArrow (reader : Reader) : Parser Bool := do
  let head : Parser Unit := do
    if ← isAtWord "async" then
      if let (.word _ _, false) ← following then advance
    let _ ← identifier
    expect .arrow
  if (← attempt head).isSome then
    arrowBody reader
    return true
  else
    return false

/-- Reads an arrow function, if one is there. -/
def arrowFunction (reader : Reader) : Parser Bool := do
  match ← guessArrow with
  | .yes =>
    let _ ← arrowHead reader
    arrowBody reader
    return true
  | .maybe => possibleArrow reader
  | .no => simpleArrow reader

/-! ### Whole expressions -/

/-- Reads the value of a yield, if one is there. -/
def yieldTail (reader : Reader) : Parser Unit := do
  expectWord "yield"
  unless ← newlineBefore do
    if ← eat .star then
      assignmentOf reader
    else if (← token).startsExpression then
      assignmentOf reader

/-- Reads an expression without top-level commas. -/
def assignmentRule (reader : Reader) : Parser Shape := do
  if (← isAtWord "yield") && (match ← following with
      | (.star, false) => true
      | (t, newline) => !newline && t.startsExpression) then
    yieldTail reader
    return .other
  if ← arrowFunction reader then
    return .other
  let shape ← operands reader
  match ← assignmentOperator with
  | some plain =>
    if shape ≠ .target && !(plain && shape = .pattern) then fail
    assignmentOf reader
    return if plain then .assigned else .other
  | none =>
    if ← eat .question then
      within (fun s => { s with noIn := false, beforeColon := true }) (assignmentOf reader)
      expect .colon
      assignmentOf reader
      return .other
    else
      return shape

/-- Reads expressions with commas between them. -/
def expressionRule (reader : Reader) : Parser Shape := do
  let shape ← reader .assignment
  foldWhile shape fun shape => do
    if ← eat .comma then
      assignmentOf reader
      return (.other, true)
    else
      return (shape, false)

end StylePrune.Script
