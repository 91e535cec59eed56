import StylePrune.Script.Grammar.Markup
import StylePrune.Script.Grammar.Module

/-!
# The script grammar

The rules of all phrases, tied together. A phrase that contains another one begins in
front of it, and no more than a few phrases begin at one character, so the depth to which
rules refer to one another is bounded by the length of the text.
-/

namespace StylePrune.Script

/-- The rule of each phrase, given readers for the phrases it contains. -/
def rule (reader : Reader) : Reader
  | .statement => statementRule reader
  | .block => blockRule reader
  | .expression => expressionRule reader
  | .assignment => assignmentRule reader
  | .unary => unaryRule reader
  | .callee => calleeRule reader
  | .type => typeRule reader
  | .binding => binding reader
  | .markup => markupRule reader

/-- The grammar with rules nested at most `depth` deep. -/
def grammar : Nat → Reader
  | 0 => fun _ => fail
  | depth + 1 => rule (grammar depth)

/-- Reads a whole script and gives the directives of its top-level imports. -/
def scriptDirectives (reader : Reader) : Parser (List Directive) :=
  foldWhile [] fun found => do
    if ← isAt .eof then
      return (found, false)
    if ← isAtImportDeclaration then
      return (found ++ (← importDeclaration).toList, true)
    let _ ← reader .statement
    return (found, true)

/-- The text of a script behind the line that names its interpreter. -/
def skipInterpreter : List Char → List Char
  | '#' :: '!' :: cs => cs.dropWhile (!isLineEnd ·)
  | cs => cs

/-- The directives of a script, or nothing when the text leaves the grammar. -/
def directives? (dialect : Dialect) (text : List Char) : Option (List Directive) :=
  let start := State.start dialect (skipInterpreter text)
  (scriptDirectives (grammar (8 * (text.length + 4))) start).map Prod.fst

end StylePrune.Script
