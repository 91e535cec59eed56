import StylePrune.Script.Grammar.Expression

/-!
# Markup

JSX elements. Names inside a tag may hold hyphens, strings there have no escapes, and the
text between tags is not made of tokens at all, so parts of an element are read from the
characters at hand. The rule stops at the angle bracket that closes the element: what
stands behind it is text for an element around this one, and a token for an expression.
-/

namespace StylePrune.Script

/-- Reads a name inside a tag. -/
def tagWord : Parser Unit := do
  let s ← get
  match s.here with
  | c :: _ =>
    if isNameStart c then
      set (s.load (s.here.dropWhile fun d => isNamePart d || d == '-'))
    else
      fail
  | [] => fail

/-- Reads the name of an element: a plain, a qualified or a dotted one. -/
def tagName : Parser Unit := do
  tagWord
  if ← eat .colon then
    tagWord
  else
    repeatWhile do
      if ← eat .dot then
        tagWord
        return true
      else
        return false

/-- Reads the value of an attribute, from its equals sign on. -/
def attributeValue (reader : Reader) : Parser Unit := do
  let s ← get
  match (skipTrivia .between false s.rest).2 with
  | c :: cs =>
    if c = '\'' ∨ c = '"' then
      match cs.dropWhile (· != c) with
      | _ :: rest => set (s.load rest)
      | [] => fail
    else
      advance
      if ← eat .openBrace then
        enclosed (expressionOf reader)
        expect .closeBrace
      else
        unless ← isAt .less do fail
        let _ ← reader .markup
        advance
  | [] => fail

/-- Reads the attributes of an element. -/
def attributes (reader : Reader) : Parser Unit :=
  repeatWhile do
    match ← token with
    | .openBrace =>
      advance
      expect .spread
      enclosed (assignmentOf reader)
      expect .closeBrace
      return true
    | .word _ _ =>
      tagWord
      if ← eat .colon then tagWord
      if ← isAt .equals then attributeValue reader
      return true
    | _ => return false

/-- Reads a closing tag from its angle bracket on, up to the bracket that closes it. -/
def closingTag : Parser Unit := do
  expect .less
  expect .slash
  unless ← isAt .greater do tagName
  unless ← isAt .greater do fail

/-- Reads what stands between the tags of an element and its closing tag. The current
token is the one in front of the text. -/
def children (reader : Reader) : Parser Unit :=
  repeatWhile do
    let s ← get
    set (s.load (s.rest.dropWhile fun c => c != '{' && c != '<'))
    match ← token with
    | .openBrace =>
      advance
      unless ← isAt .closeBrace do
        let _ ← eat .spread
        enclosed (expressionOf reader)
      unless ← isAt .closeBrace do fail
      return true
    | .less =>
      if (← following).1 = .slash then
        closingTag
        return false
      else
        let _ ← reader .markup
        return true
    | _ => fail

/-- Reads an element or a fragment up to the angle bracket that closes it. -/
def markupRule (reader : Reader) : Parser Shape := do
  expect .less
  if ← isAt .greater then
    children reader
  else
    tagName
    if (← hasTypes) && (← isAt .less) then typeArguments reader
    attributes reader
    if ← eat .slash then
      unless ← isAt .greater do fail
    else
      unless ← isAt .greater do fail
      children reader
  return .other

end StylePrune.Script
