import StylePrune.Script.Grammar.Expression

/-!
# Statements

A statement ends at a semicolon, at a line break or in front of what closes the block.
Declarations of types and modules belong to the dialects with types; elsewhere their
leading words are plain names.
-/

namespace StylePrune.Script

/-- Reads a statement inside another one. -/
def statementOf (reader : Reader) : Parser Unit := do
  let _ ← reader .statement

/-- Reads an expression in parentheses. -/
def condition (reader : Reader) : Parser Unit := do
  expect .openParen
  enclosed (expressionOf reader)
  expect .closeParen

/-- Reads statements up to a closing brace, and the brace. -/
def statementsToBrace (reader : Reader) : Parser Unit :=
  enclosed <| repeatWhile do
    if ← eat .closeBrace then
      return false
    statementOf reader
    return true

/-- Reads a block. -/
def blockRule (reader : Reader) : Parser Shape := do
  expect .openBrace
  statementsToBrace reader
  return .other

/-- Reads the declarations behind `var`, `let`, `const` or `using`. -/
def declarators (reader : Reader) : Parser Unit :=
  repeatWhile do
    let _ ← reader .binding
    if ← hasTypes then
      let _ ← eat .bang
    typeClause reader
    initializer reader
    eat .comma

/-- The words that begin a declaration of variables, with the tokens that may follow. -/
def isAtVariables : Parser Bool := do
  match ← token with
  | .word "var" true | .word "const" true => return true
  | .word "let" true =>
    match ← following with
    | (.word w _, _) => return w ∉ ["in", "instanceof", "of"]
    | (.openBracket, _) | (.openBrace, _) => return true
    | _ => return false
  | .word "using" true =>
    match ← following with
    | (.word w _, false) => return w ∉ reservedWords ∧ w ≠ "of"
    | _ => return false
  | _ => return false

/-- Reads what stands between the parentheses of a loop with `for`. -/
def loopHead (reader : Reader) : Parser Unit := do
  let overItems : Parser Bool := do
    if ← eatWord "of" then
      assignmentOf reader
      return true
    else if ← eatWord "in" then
      expressionOf reader
      return true
    else
      return false
  let steps : Parser Unit := do
    expect .semicolon
    unless ← isAt .semicolon do expressionOf reader
    expect .semicolon
    unless ← isAt .closeParen do expressionOf reader
  if ← isAt .semicolon then
    steps
  else
    if (← isAtWord "await") && (← following).1 = .word "using" true then advance
    if ← isAtVariables then
      advance
      within (fun s => { s with noIn := true }) (declarators reader)
      unless ← overItems do steps
    else
      let shape ← within (fun s => { s with noIn := true }) (reader .expression)
      if shape = .target ∨ shape = .pattern then
        unless ← overItems do steps
      else
        steps

/-- Reads a loop with `for`. -/
def forLoop (reader : Reader) : Parser Unit := do
  expectWord "for"
  let _ ← eatWord "await"
  expect .openParen
  enclosed (loopHead reader)
  expect .closeParen
  statementOf reader

/-- Reads the cases of a switch, from behind the opening brace. -/
def switchCases (reader : Reader) : Parser Unit :=
  enclosed <| repeatWhile do
    if ← eat .closeBrace then
      return false
    if ← eatWord "case" then
      expressionOf reader
    else
      expectWord "default"
    expect .colon
    repeatWhile do
      if (← isAt .closeBrace) || (← isAtWordOf ["case", "default"]) then
        return false
      statementOf reader
      return true
    return true

/-- Reads a try statement from behind its word. -/
def tryTail (reader : Reader) : Parser Unit := do
  blockOf reader
  if ← eatWord "catch" then
    if ← eat .openParen then
      let _ ← reader .binding
      typeClause reader
      expect .closeParen
    blockOf reader
  if ← eatWord "finally" then blockOf reader

/-- Reads a function declaration. -/
def functionDeclaration (reader : Reader) : Parser Unit := do
  let _ ← eatWord "async"
  expectWord "function"
  let _ ← eat .star
  let _ ← identifier
  functionTail reader true

/-! ### Declarations of types and modules -/

/-- Reads an interface from behind its word. -/
def interfaceTail (reader : Reader) : Parser Unit := do
  let _ ← identifier
  typeParameters reader
  if ← eatWord "extends" then
    repeatWhile do
      typeOf reader
      eat .comma
  expect .openBrace
  typeMembers reader

/-- Reads a type alias from behind its word. -/
def aliasTail (reader : Reader) : Parser Unit := do
  let _ ← identifier
  typeParameters reader
  expect .equals
  typeOf reader
  endStatement

/-- Reads an enumeration from behind its word. -/
def enumTail (reader : Reader) : Parser Unit := do
  let _ ← identifier
  expect .openBrace
  commaList .closeBrace do
    memberKey reader
    initializer reader

/-- Reads a namespace or a module from behind its word. -/
def moduleTail (reader : Reader) : Parser Unit := do
  match ← token with
  | .text _ => advance
  | _ => dottedName
  if ← eat .openBrace then statementsToBrace reader else endStatement

/-- Reads the declaration that the current word begins in a dialect with types, if it
begins one. -/
def typeDeclaration (reader : Reader) : Parser Bool := do
  let (next, newline) ← following
  let word := match next with
    | .word _ _ => !newline
    | _ => false
  match ← token with
  | .word "interface" true =>
    unless word do return false
    advance
    interfaceTail reader
    return true
  | .word "type" true =>
    unless word do return false
    advance
    aliasTail reader
    return true
  | .word "enum" true =>
    advance
    enumTail reader
    return true
  | .word "const" true =>
    unless next = .word "enum" true do return false
    advance
    advance
    enumTail reader
    return true
  | .word "namespace" true | .word "module" true =>
    let quoted := match next with
      | .text _ => !newline
      | _ => false
    unless word || quoted do return false
    advance
    moduleTail reader
    return true
  | .word "global" true =>
    unless next = .openBrace do return false
    advance
    expect .openBrace
    statementsToBrace reader
    return true
  | .word "abstract" true =>
    unless next = .word "class" true && !newline do return false
    advance
    classTail reader
    return true
  | .word "declare" true =>
    unless word do return false
    advance
    statementOf reader
    return true
  | _ => return false

/-! ### Statements -/

/-- Reads a statement that no keyword begins. -/
def plainStatement (reader : Reader) : Parser Unit := do
  if (← isAtIdentifier) && (← following).1 = .colon then
    advance
    advance
    statementOf reader
  else
    expressionOf reader
    endStatement

/-- Reads the statement that a keyword begins. -/
def keywordStatement (reader : Reader) (word : String) : Parser Unit := do
  match word with
  | "if" =>
    advance
    condition reader
    statementOf reader
    if ← eatWord "else" then statementOf reader
  | "while" | "with" =>
    advance
    condition reader
    statementOf reader
  | "do" =>
    advance
    statementOf reader
    expectWord "while"
    condition reader
    let _ ← eat .semicolon
  | "for" => forLoop reader
  | "switch" =>
    advance
    condition reader
    expect .openBrace
    switchCases reader
  | "try" =>
    advance
    tryTail reader
  | "throw" =>
    advance
    expressionOf reader
    endStatement
  | "return" =>
    advance
    unless ← isAtStatementEnd do expressionOf reader
    endStatement
  | "break" | "continue" =>
    advance
    if (← isAtIdentifier) && !(← newlineBefore) then advance
    endStatement
  | "debugger" =>
    advance
    endStatement
  | "function" => functionDeclaration reader
  | "class" => classTail reader
  | "async" =>
    if (← following) = (.word "function" true, false) then
      functionDeclaration reader
    else
      plainStatement reader
  | "await" =>
    if (← following).1 = .word "using" true then
      advance
      if ← isAtVariables then
        advance
        declarators reader
      else
        expressionOf reader
      endStatement
    else
      plainStatement reader
  | _ =>
    if ← isAtVariables then
      advance
      declarators reader
      endStatement
    else
      plainStatement reader

end StylePrune.Script
