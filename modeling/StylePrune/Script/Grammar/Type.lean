import StylePrune.Script.Parser

/-!
# Types, bindings and parameters

Types stand only in dialects that have them. Bindings and parameter lists are read here
too, because function types are made of them.
-/

namespace StylePrune.Script

/-- Reads a type. -/
def typeOf (reader : Reader) : Parser Unit := do
  let _ ← reader .type

/-- Reads `: type` if the dialect has types and a colon is there. -/
def typeClause (reader : Reader) : Parser Unit := do
  if ← hasTypes then
    if ← eat .colon then typeOf reader

/-- Reads `= value` if it is there. -/
def initializer (reader : Reader) : Parser Unit := do
  if ← eat .equals then
    let _ ← reader .assignment

/-- Reads type arguments, which begin with the current token. -/
def typeArguments (reader : Reader) : Parser Unit := do
  expect .less
  commaList .greater (typeOf reader)

/-- Reads type arguments that stand on the line of what they are given to. -/
def optionalTypeArguments (reader : Reader) : Parser Unit := do
  if (← isAt .less) && !(← newlineBefore) then typeArguments reader

/-- Reads type parameters if they are there. -/
def typeParameters (reader : Reader) : Parser Unit := do
  if ← hasTypes then
    if ← eat .less then
      commaList .greater do
        repeatWhile do
          if ← isAtWordOf ["const", "in", "out"] then
            match ← following with
            | (.word w _, _) =>
              if w = "extends" then
                return false
              else
                advance
                return true
            | _ => return false
          else
            return false
        let _ ← identifier
        if ← eatWord "extends" then typeOf reader
        if ← eat .equals then typeOf reader

/-- Reads the key of a member: a word, a text, a number, a private name, or an expression
in brackets. -/
def memberKey (reader : Reader) : Parser Unit := do
  match ← token with
  | .word _ _ | .text _ | .number | .privateName => advance
  | .openBracket =>
    advance
    enclosed do
      let _ ← reader .assignment
    expect .closeBracket
  | _ => fail

/-- Reads a binding with a default value, as in a pattern. -/
def bindingElement (reader : Reader) : Parser Unit := do
  let _ ← reader .binding
  initializer reader

/-- Reads a property of an object pattern. -/
def bindingProperty (reader : Reader) : Parser Unit := do
  if ← eat .spread then
    let _ ← reader .binding
  else if (← isAtIdentifier) && (← following).1 ≠ .colon then
    advance
    initializer reader
  else
    memberKey reader
    expect .colon
    bindingElement reader

/-- Reads a name or a pattern that a value is bound to. -/
def binding (reader : Reader) : Parser Shape := do
  match ← token with
  | .openBracket =>
    advance
    commaList .closeBracket do
      unless ← isAt .comma do
        let _ ← eat .spread
        bindingElement reader
  | .openBrace =>
    advance
    commaList .closeBrace (bindingProperty reader)
  | _ =>
    let _ ← identifier
  return .other

/-- Reads decorators. -/
def decorators (reader : Reader) : Parser Unit :=
  repeatWhile do
    if ← eat .sign then
      let _ ← reader .callee
      return true
    else
      return false

/-- Whether the current word modifies what follows it, because a name or a pattern
follows. -/
def isModifier (words : List String) : Parser Bool := do
  if ← isAtWordOf words then
    match ← following with
    | (.word _ _, _) | (.openBrace, _) | (.openBracket, _) => return true
    | _ => return false
  else
    return false

/-- Reads a parameter. -/
def parameter (reader : Reader) : Parser Unit := do
  decorators reader
  if ← hasTypes then
    repeatWhile do
      if ← isModifier ["public", "private", "protected", "readonly", "override"] then
        advance
        return true
      else
        return false
  let _ ← eat .spread
  if (← hasTypes) && (← isAtWord "this") then
    advance
  else
    let _ ← reader .binding
  if ← hasTypes then
    let _ ← eat .question
  typeClause reader
  initializer reader

/-- Reads a parameter list with its parentheses. -/
def parameters (reader : Reader) : Parser Unit := do
  expect .openParen
  commaList .closeParen (parameter reader)

/-- Reads the type behind an arrow or a colon of a function type. -/
def functionTypeTail (reader : Reader) : Parser Unit := do
  typeParameters reader
  parameters reader
  expect .arrow
  typeOf reader

/-- Whether a function type is there. -/
def isAtFunctionType (reader : Reader) : Parser Bool := do
  match ← token with
  | .less => return true
  | .openParen =>
    looksLike do
      parameters reader
      expect .arrow
  | _ => return false

/-- Reads a dotted name. -/
def dottedName : Parser Unit := do
  let _ ← anyWord
  repeatWhile do
    if ← eat .dot then
      match ← token with
      | .privateName => advance
      | _ =>
        let _ ← anyWord
      return true
    else
      return false

/-- Reads the members of an object type or an interface, from behind the opening brace. -/
def typeMembers (reader : Reader) : Parser Unit :=
  enclosed <| repeatWhile do
    if ← eat .closeBrace then
      return false
    let signature : Parser Unit := do
      typeParameters reader
      parameters reader
      typeClause reader
    match ← token with
    | .openParen | .less => signature
    | _ =>
      repeatWhile do
        if ← isAtWordOf ["readonly", "get", "set", "static", "public", "private",
            "protected", "declare"] then
          match ← following with
          | (.word _ _, _) | (.text _, _) | (.number, _) | (.openBracket, _)
          | (.privateName, _) =>
            advance
            return true
          | _ => return false
        else
          return false
      if (← isAtWord "new") &&
          ((← following).1 = .openParen || (← following).1 = .less) then
        advance
        signature
      else
        let indexSignature : Parser Unit := do
          expect .openBracket
          let _ ← identifier
          expect .colon
          typeOf reader
          expect .closeBracket
        unless (← attempt (enclosed indexSignature)).isSome do memberKey reader
        let _ ← eat .question
        if (← isAt .openParen) || (← isAt .less) then signature else typeClause reader
    unless ← eat .semicolon do
      let _ ← eat .comma
    return true

/-- Reads an added or removed modifier of a mapped type, and tells whether there was one. -/
def mappedModifier (modifier : Parser Bool) : Parser Unit := do
  if (← isAt .plus) || (← isAt .minus) then
    advance
    unless ← modifier do fail
  else
    let _ ← modifier

/-- Reads a mapped type from behind the opening brace. -/
def mappedType (reader : Reader) : Parser Unit :=
  enclosed do
    mappedModifier (eatWord "readonly")
    expect .openBracket
    let _ ← identifier
    expectWord "in"
    typeOf reader
    if ← eatWord "as" then typeOf reader
    expect .closeBracket
    mappedModifier (eat .question)
    typeClause reader
    unless ← eat .semicolon do
      let _ ← eat .comma
    expect .closeBrace

/-- Reads an element of a tuple type. -/
def tupleElement (reader : Reader) : Parser Unit := do
  let _ ← eat .spread
  let named : Parser Unit := do
    let _ ← anyWord
    let _ ← eat .question
    expect .colon
  let _ ← attempt named
  typeOf reader
  let _ ← eat .question

/-- Reads the module in a type `import("module")` and the names behind it. -/
def importType (reader : Reader) : Parser Unit := do
  expectWord "import"
  expect .openParen
  typeOf reader
  if ← eat .comma then
    if ← isAt .openBrace then
      let _ ← reader .assignment
    let _ ← eat .comma
  expect .closeParen
  if ← eat .dot then dottedName
  optionalTypeArguments reader

/-- Reads a type without operators. -/
def simpleType (reader : Reader) : Parser Unit := do
  match ← token with
  | .text _ | .number => advance
  | .minus =>
    advance
    expect .number
  | .template _ => template (typeOf reader)
  | .openBrace =>
    advance
    unless (← attempt (mappedType reader)).isSome do typeMembers reader
  | .openBracket =>
    advance
    commaList .closeBracket (tupleElement reader)
  | .openParen =>
    advance
    enclosed (typeOf reader)
    expect .closeParen
  | .word "typeof" true =>
    advance
    if ← isAtWord "import" then
      importType reader
    else
      dottedName
      optionalTypeArguments reader
  | .word "import" true => importType reader
  | .word w _ =>
    if w ∈ reservedWords ∧ w ∉ ["void", "null", "true", "false", "this", "const"] then fail
    dottedName
    optionalTypeArguments reader
  | _ => fail

/-- Reads the brackets behind a type: arrays and indexed types. -/
def typeSuffixes (reader : Reader) : Parser Unit :=
  repeatWhile do
    if (← isAt .openBracket) && !(← newlineBefore) then
      advance
      unless ← isAt .closeBracket do enclosed (typeOf reader)
      expect .closeBracket
      return true
    else
      return false

/-- Reads the constraint behind `infer name`, unless it is the condition of a conditional
type. -/
def inferConstraint (reader : Reader) : Parser Unit := do
  let constraint : Parser Unit := do
    expectWord "extends"
    within (fun s => { s with noConditional := true }) (typeOf reader)
    if !(← get).noConditional && (← isAt .question) then fail
  let _ ← attempt constraint

/-- Reads a type with the operators in front of it. -/
def operatorType (reader : Reader) : Parser Unit := do
  repeatWhile do
    if ← isAtWordOf ["keyof", "unique", "readonly"] then
      match ← following with
      | (.word _ _, _) | (.openBrace, _) | (.openBracket, _) | (.openParen, _)
      | (.text _, _) =>
        advance
        return true
      | _ => return false
    else
      return false
  if (← isAtWord "infer") &&
      (match (← following).1 with | .word _ _ => true | _ => false) then
    advance
    let _ ← identifier
    inferConstraint reader
  else
    simpleType reader
    typeSuffixes reader

/-- Reads one member of a union or an intersection. -/
def memberType (reader : Reader) : Parser Unit := do
  if ← isAtFunctionType reader then
    functionTypeTail reader
  else if ← isAtWord "new" then
    advance
    functionTypeTail reader
  else if (← isAtWord "abstract") && (← following).1 = .word "new" true then
    advance
    advance
    functionTypeTail reader
  else
    operatorType reader

/-- Reads `x is type` or `asserts x` as far as it goes beyond a type. -/
def predicateStart : Parser Unit := do
  if ← isAtWord "asserts" then
    match ← following with
    | (.word w _, false) => if w ≠ "is" then advance
    | _ => pure ()

/-- Reads a type. -/
def typeRule (reader : Reader) : Parser Shape := do
  predicateStart
  unless ← eat .pipe do
    let _ ← eat .ampersand
  repeatWhile do
    memberType reader
    if ← eat .pipe then
      return true
    else
      eat .ampersand
  if (← isAtWord "is") && !(← newlineBefore) then
    advance
    typeOf reader
  else if (← isAtWord "extends") && !(← newlineBefore) && !(← get).noConditional then
    advance
    within (fun s => { s with noConditional := true }) (typeOf reader)
    expect .question
    within (fun s => { s with noConditional := false }) (typeOf reader)
    expect .colon
    within (fun s => { s with noConditional := false }) (typeOf reader)
  return .other

end StylePrune.Script
