import StylePrune.Text.Blank
import StylePrune.Text.Word

/-!
# Tokens of a script

Scripts are read token by token from the characters at hand. Angle brackets are always
single tokens, because only the grammar knows whether they enclose types; a slash is only
known to be a division or the start of a regular expression by the grammar too, which
then reads the expression with `readRegex`.
-/

namespace StylePrune.Script

/-- A token. -/
inductive Token where
  | eof
  /-- Characters that no token begins with, or a token without its end. -/
  | invalid
  /-- An identifier or keyword with its escapes decoded; `plain` if it had none. -/
  | word (name : String) (plain : Bool)
  | privateName
  | number
  /-- A string with its escapes decoded. -/
  | text (value : String)
  /-- A template up to its end, or up to its first interpolation. -/
  | template (complete : Bool)
  | openBrace
  | closeBrace
  | openParen
  | closeParen
  | openBracket
  | closeBracket
  | semicolon
  | comma
  | colon
  | dot
  | spread
  | question
  | questionDot
  | arrow
  | sign
  | equals
  /-- An assignment with an operator, such as `+=`. -/
  | assignOperator
  /-- `++` or `--`. -/
  | step
  | bang
  | tilde
  | plus
  | minus
  | star
  | slash
  | slashEquals
  | less
  | greater
  | pipe
  | ampersand
  /-- Any other operator between two operands. -/
  | operator
deriving DecidableEq, Repr

/-- A character that ends a line of a script. -/
def isLineEnd (c : Char) : Bool :=
  c == '\n' || c == '\r' || c.toNat == 0x2028 || c.toNat == 0x2029

/-- White space inside a line of a script. -/
def isSpace (c : Char) : Bool :=
  (Text.isBlank c && !isLineEnd c && c.toNat != 0x85) || c.toNat == 0xFEFF

/-- The first character of an identifier. -/
def isNameStart (c : Char) : Bool :=
  Text.isIdentifierStart c || c == '_' || c == '$'

/-- A later character of an identifier. -/
def isNamePart (c : Char) : Bool :=
  Text.isIdentifierPart c || c == '$' || Text.isJoinControl c

/-- Where the reader of white space and comments stands. -/
inductive Trivia where
  | between
  | lineComment
  | blockOpening
  | blockComment
  | blockStar
deriving DecidableEq, Repr

/-- Skips white space and comments; tells whether a line ended on the way. A block
comment without its end takes everything. -/
def skipTrivia : Trivia → Bool → List Char → Bool × List Char
  | _, newline, [] => (newline, [])
  | .between, newline, c :: cs =>
    if isLineEnd c then skipTrivia .between true cs
    else if isSpace c then skipTrivia .between newline cs
    else if c = '/' ∧ cs.head? = some '/' then skipTrivia .lineComment newline cs
    else if c = '/' ∧ cs.head? = some '*' then skipTrivia .blockOpening newline cs
    else (newline, c :: cs)
  | .lineComment, newline, c :: cs =>
    if isLineEnd c then skipTrivia .between true cs else skipTrivia .lineComment newline cs
  | .blockOpening, newline, _ :: cs => skipTrivia .blockComment newline cs
  | .blockComment, newline, c :: cs =>
    skipTrivia (if c = '*' then .blockStar else .blockComment) (newline || isLineEnd c) cs
  | .blockStar, newline, c :: cs =>
    if c = '/' then skipTrivia .between newline cs
    else
      skipTrivia (if c = '*' then .blockStar else .blockComment) (newline || isLineEnd c) cs

/-- The value of a hexadecimal digit. -/
def hexValue? (c : Char) : Option Nat :=
  if '0' ≤ c ∧ c ≤ '9' then some (c.toNat - '0'.toNat)
  else if 'a' ≤ c ∧ c ≤ 'f' then some (c.toNat - 'a'.toNat + 10)
  else if 'A' ≤ c ∧ c ≤ 'F' then some (c.toNat - 'A'.toNat + 10)
  else none

/-- The number that a run of hexadecimal digits stands for. -/
def hexNumber? (digits : List Char) : Option Nat :=
  if digits = [] then none
  else digits.foldl (fun n c => do return 16 * (← n) + (← hexValue? c)) (some 0)

/-- The code point of an escape behind `\u`: four digits, or digits in braces. -/
def codePoint? : List Char → Option (Nat × List Char)
  | '{' :: cs => do
    let n ← hexNumber? (cs.takeWhile (· != '}'))
    match cs.dropWhile (· != '}') with
    | _ :: rest => if n ≤ 0x10FFFF then some (n, rest) else none
    | [] => none
  | cs => do
    let n ← hexNumber? (cs.take 4)
    if (cs.take 4).length = 4 then some (n, cs.drop 4) else none

/-- Reads the characters of an identifier, escapes included; the flag says that there was
none. -/
def readName : Nat → List Char → List Char × Bool × List Char
  | 0, cs => ([], true, cs)
  | _, [] => ([], true, [])
  | fuel + 1, c :: cs =>
    if isNamePart c then
      let (name, plain, rest) := readName fuel cs
      (c :: name, plain, rest)
    else if c = '\\' ∧ cs.head? = some 'u' then
      match codePoint? cs.tail with
      | some (n, rest) =>
        let (name, _, rest) := readName fuel rest
        (Char.ofNat n :: name, false, rest)
      | none => ([], true, c :: cs)
    else
      ([], true, c :: cs)

/-- The code units of a string up to its closing quote, and what follows it. A string may
not run over the end of a line unless a backslash stands in front of it. -/
def readText (quote : Char) : Nat → List Char → Option (List Nat × List Char)
  | 0, _ => none
  | _, [] => none
  | fuel + 1, c :: cs =>
    let push (n : Nat) (rest : List Char) : Option (List Nat × List Char) := do
      let (units, rest) ← readText quote fuel rest
      return (n :: units, rest)
    if c = quote then
      some ([], cs)
    else if c = '\n' ∨ c = '\r' then
      none
    else if c ≠ '\\' then
      push c.toNat cs
    else
      match cs with
      | [] => none
      | 'n' :: cs => push 10 cs
      | 't' :: cs => push 9 cs
      | 'b' :: cs => push 8 cs
      | 'v' :: cs => push 11 cs
      | 'f' :: cs => push 12 cs
      | 'r' :: cs => push 13 cs
      | 'x' :: cs => do
        let n ← hexNumber? (cs.take 2)
        if (cs.take 2).length = 2 then push n (cs.drop 2) else none
      | 'u' :: cs => do
        let (n, rest) ← codePoint? cs
        push n rest
      | '\r' :: '\n' :: cs => readText quote fuel cs
      | d :: cs =>
        if isLineEnd d then
          readText quote fuel cs
        else if '0' ≤ d ∧ d ≤ '7' then
          let width := if d ≤ '3' then 3 else 2
          let digits := ((d :: cs).take width).takeWhile fun e => '0' ≤ e ∧ e ≤ '7'
          push (digits.foldl (fun n e => 8 * n + (e.toNat - '0'.toNat)) 0)
            ((d :: cs).drop digits.length)
        else
          push d.toNat cs

/-- The characters that code units stand for. Two surrogates that belong together are one
character; one that stands alone is written as U+FFFD and its four digits. -/
def ofUnits : List Nat → List Char
  | [] => []
  | [n] => single n
  | n :: m :: rest =>
    if 0xD800 ≤ n ∧ n ≤ 0xDBFF ∧ 0xDC00 ≤ m ∧ m ≤ 0xDFFF then
      Char.ofNat (0x10000 + (n - 0xD800) * 0x400 + (m - 0xDC00)) :: ofUnits rest
    else
      single n ++ ofUnits (m :: rest)
where
  single (n : Nat) : List Char :=
    if 0xD800 ≤ n ∧ n ≤ 0xDFFF then '\uFFFD' :: Nat.toDigits 16 n else [Char.ofNat n]

/-- Reads a template from behind its opening backtick or behind an interpolation: up to
its end (`true`) or up to its next interpolation. -/
def readTemplate : List Char → Option (Bool × List Char)
  | [] => none
  | '\\' :: _ :: cs => readTemplate cs
  | '`' :: cs => some (true, cs)
  | '$' :: '{' :: cs => some (false, cs)
  | _ :: cs => readTemplate cs

/-- Reads a regular expression and its flags from behind its opening slash. -/
def readRegex : Bool → List Char → Option (List Char)
  | _, [] => none
  | inClass, '\\' :: c :: cs => if isLineEnd c then none else readRegex inClass cs
  | inClass, c :: cs =>
    if isLineEnd c then none
    else if c = '/' ∧ !inClass then some (cs.dropWhile isNamePart)
    else readRegex (if c = '[' then true else if c = ']' then false else inClass) cs

/-- The rest behind digits, which may have single underscores between them. -/
def skipDigits (isDigit : Char → Bool) : List Char → List Char
  | '_' :: d :: cs => if isDigit d then skipDigits isDigit cs else '_' :: d :: cs
  | c :: cs => if isDigit c then skipDigits isDigit cs else c :: cs
  | [] => []

/-- The rest behind decimal digits; an underscore behind the last of them is passed over. -/
def skipDecimal (cs : List Char) : List Char :=
  match skipDigits Char.isDigit cs with
  | '_' :: rest => rest
  | rest => rest

/-- The rest behind a mark of magnitude and its digits, if there is one. -/
def skipExponent (cs : List Char) : List Char :=
  match cs with
  | e :: rest =>
    let digits := match rest with
      | '+' :: rest | '-' :: rest => rest
      | rest => rest
    if e = 'e' ∨ e = 'E' then
      (if digits.head?.any Char.isDigit then skipDecimal digits else digits)
    else cs
  | [] => cs

/-- Whether a character is a digit in the base that a letter behind a zero stands for. -/
def isDigitFor (letter c : Char) : Bool :=
  match hexValue? c with
  | some n =>
    if letter = 'b' ∨ letter = 'B' then n < 2
    else if letter = 'o' ∨ letter = 'O' then n < 8
    else letter = 'x' ∨ letter = 'X'
  | none => false

/-- The rest behind a number whose first character is a digit, or a dot with a digit
behind it. -/
def skipNumber (cs : List Char) : List Char :=
  let skipBig (rest : List Char) : List Char :=
    if rest.head? = some 'n' then rest.tail else rest
  let decimal (rest : List Char) : List Char :=
    match rest with
    | '.' :: rest =>
      skipExponent (if rest.head?.any Char.isDigit then skipDecimal rest else rest)
    | rest => if rest.head? = some 'n' then rest.tail else skipExponent rest
  match cs with
  | '0' :: '_' :: rest => '_' :: rest
  | '0' :: letter :: d :: rest =>
    if isDigitFor letter d then skipBig (skipDigits (isDigitFor letter) rest)
    else decimal (skipDecimal cs)
  | cs => decimal (skipDecimal cs)

/-- The punctuation at the start of a text, the longest first. -/
def punctuation : List Char → Token × List Char
  | '{' :: cs => (.openBrace, cs)
  | '}' :: cs => (.closeBrace, cs)
  | '(' :: cs => (.openParen, cs)
  | ')' :: cs => (.closeParen, cs)
  | '[' :: cs => (.openBracket, cs)
  | ']' :: cs => (.closeBracket, cs)
  | ';' :: cs => (.semicolon, cs)
  | ',' :: cs => (.comma, cs)
  | ':' :: cs => (.colon, cs)
  | '@' :: cs => (.sign, cs)
  | '~' :: cs => (.tilde, cs)
  | '<' :: cs => (.less, cs)
  | '>' :: cs => (.greater, cs)
  | '.' :: '.' :: '.' :: cs => (.spread, cs)
  | '.' :: cs => (.dot, cs)
  | '=' :: '=' :: '=' :: cs => (.operator, cs)
  | '=' :: '=' :: cs => (.operator, cs)
  | '=' :: '>' :: cs => (.arrow, cs)
  | '=' :: cs => (.equals, cs)
  | '!' :: '=' :: '=' :: cs => (.operator, cs)
  | '!' :: '=' :: cs => (.operator, cs)
  | '!' :: cs => (.bang, cs)
  | '+' :: '+' :: cs => (.step, cs)
  | '+' :: '=' :: cs => (.assignOperator, cs)
  | '+' :: cs => (.plus, cs)
  | '-' :: '-' :: cs => (.step, cs)
  | '-' :: '=' :: cs => (.assignOperator, cs)
  | '-' :: cs => (.minus, cs)
  | '*' :: '*' :: '=' :: cs => (.assignOperator, cs)
  | '*' :: '*' :: cs => (.operator, cs)
  | '*' :: '=' :: cs => (.assignOperator, cs)
  | '*' :: cs => (.star, cs)
  | '/' :: '=' :: cs => (.slashEquals, cs)
  | '/' :: cs => (.slash, cs)
  | '%' :: '=' :: cs => (.assignOperator, cs)
  | '%' :: cs => (.operator, cs)
  | '^' :: '=' :: cs => (.assignOperator, cs)
  | '^' :: cs => (.operator, cs)
  | '&' :: '&' :: '=' :: cs => (.assignOperator, cs)
  | '&' :: '&' :: cs => (.operator, cs)
  | '&' :: '=' :: cs => (.assignOperator, cs)
  | '&' :: cs => (.ampersand, cs)
  | '|' :: '|' :: '=' :: cs => (.assignOperator, cs)
  | '|' :: '|' :: cs => (.operator, cs)
  | '|' :: '=' :: cs => (.assignOperator, cs)
  | '|' :: cs => (.pipe, cs)
  | '?' :: '?' :: '=' :: cs => (.assignOperator, cs)
  | '?' :: '?' :: cs => (.operator, cs)
  | '?' :: '.' :: cs =>
    if cs.head?.any Char.isDigit then (.question, '.' :: cs) else (.questionDot, cs)
  | '?' :: cs => (.question, cs)
  | cs => (.invalid, cs)

/-- The token at the start of a text that begins with neither white space nor a comment. -/
def Token.read (cs : List Char) : Token × List Char :=
  match cs with
  | [] => (.eof, [])
  | c :: rest =>
    if isNameStart c ∨ c = '\\' then
      match readName cs.length cs with
      | ([], _, _) => (.invalid, rest)
      | (name, plain, rest) => (.word (String.ofList name) plain, rest)
    else if c = '#' then
      match readName cs.length rest with
      | ([], _, _) => (.invalid, rest)
      | (_, _, rest) => (.privateName, rest)
    else if c.isDigit ∨ (c = '.' ∧ rest.head?.any Char.isDigit) then
      let rest := skipNumber cs
      if rest.head?.any fun d => isNameStart d || d.isDigit || d == '\\' then
        (.invalid, rest)
      else (.number, rest)
    else if c = '\'' ∨ c = '"' then
      match readText c cs.length rest with
      | some (units, rest) => (.text (String.ofList (ofUnits units)), rest)
      | none => (.invalid, rest)
    else if c = '`' then
      match readTemplate rest with
      | some (complete, rest) => (.template complete, rest)
      | none => (.invalid, rest)
    else
      punctuation cs

end StylePrune.Script
