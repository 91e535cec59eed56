import StylePrune.Import.Directive
import StylePrune.Script.Grammar.Statement

/-!
# Imports and exports

An import declaration is the one statement whose content matters: it yields a directive
when it binds a name as a value. Exports are only recognized.
-/

namespace StylePrune.Script

/-- Reads the name of an exported item, which may be a string. -/
def exportedName : Parser Unit := do
  match ← token with
  | .text _ => advance
  | _ =>
    let _ ← anyWord

/-- Reads a string. -/
def textValue : Parser String := do
  match ← token with
  | .text value =>
    advance
    return value
  | _ => fail

/-- Reads the attributes of an import or a re-export, if there are any. -/
def importAttributes : Parser Unit := do
  let present := (← isAtWord "with") || ((← isAtWord "assert") && !(← newlineBefore))
  if present && (← following).1 = .openBrace then
    advance
    expect .openBrace
    commaList .closeBrace do
      exportedName
      expect .colon
      let _ ← textValue

/-! ### Imports -/

/-- Whether the current token is a word. -/
def isAtAnyWord : Parser Bool := do
  match ← token with
  | .word _ _ => return true
  | _ => return false

/-- Reads `as name` and gives the name. -/
def localName : Parser String := do
  expectWord "as"
  identifier

/-- Reads an item of a braced import list: its local name, unless it is imported as a
type only. The word `type` marks a type unless it is itself the imported name. -/
def importItem : Parser (Option String) := do
  match ← token with
  | .text _ =>
    advance
    return some (← localName)
  | .word "type" true =>
    unless ← hasTypes do
      advance
      return some (← if ← isAtWord "as" then localName else pure "type")
    advance
    if ← isAtWord "as" then
      advance
      if ← isAtWord "as" then
        advance
        if ← isAtAnyWord then
          let _ ← identifier
          return none
        else
          return some "as"
      else if ← isAtAnyWord then
        return some (← identifier)
      else
        return none
    else
      match ← token with
      | .word _ _ | .text _ =>
        advance
        if ← isAtWord "as" then
          let _ ← localName
        return none
      | _ => return some "type"
  | _ =>
    if (← following).1 = .word "as" true then
      let _ ← anyWord
      return some (← localName)
    else
      return some (← identifier)

/-- Reads a braced import list. -/
def importItems : Parser (List String) := do
  expect .openBrace
  enclosed <| foldWhile [] fun names => do
    if ← eat .closeBrace then
      return (names, false)
    let names := names ++ (← importItem).toList
    if ← eat .comma then
      return (names, true)
    expect .closeBrace
    return (names, false)

/-- Reads `* as name`. -/
def importNamespace : Parser String := do
  expect .star
  localName

/-- Reads the clause of an import: a default name, a namespace, a braced list, or the
first with one of the others. -/
def importClause : Parser (List String) := do
  match ← token with
  | .star => return [← importNamespace]
  | .openBrace => importItems
  | _ =>
    let name ← identifier
    if ← eat .comma then
      if ← isAt .star then
        return [name, ← importNamespace]
      else
        return name :: (← importItems)
    else
      return [name]

/-- Whether a word behind `import` stands in front of the clause instead of beginning it. -/
def isImportModifier : Parser Bool := do
  match ← token with
  | .word "type" true =>
    unless ← hasTypes do return false
    match ← following with
    | (.star, _) | (.openBrace, _) => return true
    | (.word "from" _, _) =>
      looksLike do
        advance
        advance
        match ← token with
        | .word "from" _ | .equals => pure ()
        | _ => fail
    | (.word _ _, _) => return true
    | _ => return false
  | .word "defer" true => return (← following).1 = .star
  | .word "source" true =>
    match ← following with
    | (.word "from" _, _) =>
      looksLike do
        advance
        advance
        expectWord "from"
    | (.word _ _, _) => return true
    | _ => return false
  | _ => return false

/-- Reads the rest of `import name = module`, from the equals sign on. -/
def importAlias : Parser Unit := do
  expect .equals
  if (← isAtWord "require") && (← following).1 = .openParen then
    advance
    advance
    let _ ← textValue
    expect .closeParen
  else
    dottedName
  endStatement

/-- Reads an import declaration, and gives its directive if it binds a name as a value. -/
def importDeclaration : Parser (Option Directive) := do
  expectWord "import"
  match ← token with
  | .text _ =>
    advance
    importAttributes
    endStatement
    return none
  | _ =>
    let typeOnly := (← isAtWord "type") && (← isImportModifier)
    if ← isImportModifier then advance
    if (← hasTypes) && (← isAtIdentifier) && (← following).1 = .equals then
      advance
      importAlias
      return none
    let names ← importClause
    expectWord "from"
    let specifier ← textValue
    importAttributes
    endStatement
    return if typeOnly ∨ names = [] then none else some ⟨specifier, Names.ofList names⟩

/-- Whether an import declaration begins here, and not an import expression. -/
def isAtImportDeclaration : Parser Bool := do
  if ← isAtWord "import" then
    match ← following with
    | (.openParen, _) | (.dot, _) => return false
    | _ => return true
  else
    return false

/-! ### Exports -/

/-- Reads an item of a braced export list. -/
def exportItem : Parser Unit := do
  if (← isAtWord "type") && (← hasTypes) then
    match ← following with
    | (.word w _, _) => if w ≠ "as" then advance
    | (.text _, _) => advance
    | _ => pure ()
  exportedName
  repeatWhile do
    if ← eatWord "as" then
      if (← isAt .comma) || (← isAt .closeBrace) then
        return false
      exportedName
      return true
    else
      return false

/-- Reads `from "module"` with attributes. -/
def exportSource : Parser Unit := do
  expectWord "from"
  let _ ← textValue
  importAttributes
  endStatement

/-- Reads what is exported by default, from behind `default`. -/
def exportDefault (reader : Reader) : Parser Unit := do
  let function : Parser Unit := do
    let _ ← eatWord "async"
    expectWord "function"
    let _ ← eat .star
    if ← isAtIdentifier then advance
    functionTail reader true
  match ← token with
  | .word "function" true => function
  | .word "class" true => classTail reader
  | .sign =>
    decorators reader
    let _ ← eatWord "abstract"
    classTail reader
  | .word "async" true =>
    if (← following) = (.word "function" true, false) then
      function
    else
      assignmentOf reader
      endStatement
  | .word "abstract" true =>
    if (← hasTypes) && (← following) = (.word "class" true, false) then
      advance
      classTail reader
    else
      assignmentOf reader
      endStatement
  | .word "interface" true =>
    if (← hasTypes) &&
        (match ← following with | (.word _ _, false) => true | _ => false) then
      advance
      interfaceTail reader
    else
      assignmentOf reader
      endStatement
  | _ =>
    assignmentOf reader
    endStatement

/-- Reads a braced export list and its source, if it has one. -/
def exportList : Parser Unit := do
  expect .openBrace
  commaList .closeBrace exportItem
  if ← isAtWord "from" then exportSource else endStatement

/-- Reads `*` or `* as name` and its source. -/
def exportAll : Parser Unit := do
  expect .star
  if ← eatWord "as" then exportedName
  exportSource

/-- Reads an export from its word on. -/
def exportDeclaration (reader : Reader) : Parser Unit := do
  expectWord "export"
  match ← token with
  | .star => exportAll
  | .openBrace => exportList
  | .equals =>
    advance
    expressionOf reader
    endStatement
  | .word "default" true =>
    advance
    exportDefault reader
  | .word "import" true =>
    let _ ← importDeclaration
  | .sign =>
    decorators reader
    let _ ← eatWord "abstract"
    classTail reader
  | .word "as" true =>
    unless (← hasTypes) && (← following).1 = .word "namespace" true do fail
    advance
    advance
    let _ ← identifier
    endStatement
  | .word w true =>
    if w = "type" && (← hasTypes) && (← following).1 = .star then
      advance
      exportAll
    else if w = "type" && (← hasTypes) && (← following).1 = .openBrace then
      advance
      exportList
    else if (← hasTypes) && (← looksLike (do unless ← typeDeclaration reader do fail)) then
      let _ ← typeDeclaration reader
    else if w ∈ ["var", "let", "const", "using", "function", "class", "async", "await"] then
      keywordStatement reader w
    else
      fail
  | _ => fail

/-- Reads a statement. -/
def statementRule (reader : Reader) : Parser Shape := do
  match ← token with
  | .openBrace => blockOf reader
  | .semicolon => advance
  | .sign =>
    decorators reader
    if ← isAtWord "export" then
      exportDeclaration reader
    else
      let _ ← eatWord "abstract"
      classTail reader
  | .word "export" true => exportDeclaration reader
  | .word "import" true =>
    if ← isAtImportDeclaration then
      let _ ← importDeclaration
    else
      plainStatement reader
  | .word w true =>
    if (← hasTypes) && w ∈ ["interface", "type", "enum", "const", "namespace", "module",
        "global", "abstract", "declare"] then
      unless ← typeDeclaration reader do keywordStatement reader w
    else
      keywordStatement reader w
  | _ => plainStatement reader
  return .other

end StylePrune.Script
