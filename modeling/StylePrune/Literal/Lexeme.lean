import StylePrune.Text.Blank

/-!
# Lexemes of a style literal

The text behind an opening marker is read as a sequence of lexemes. A comment, a quoted
string or a template is one lexeme whatever it holds, so the braces and commas inside it
never reach the entry reader. Nothing is dropped: the lexemes of a text, put together,
are the text again (`flatMap_chars_lexemes`).
-/

namespace StylePrune.Literal

/-- What a lexeme is to the reader of a literal. -/
inductive LexemeKind where
  | comment
  | quoted
  | template
  | opening
  | closing
  | comma
  | colon
  | word
  | blank
  | other
deriving DecidableEq, Repr

/-- A lexeme with the characters it covers. -/
structure Lexeme where
  kind : LexemeKind
  chars : List Char
deriving DecidableEq, Repr

/-- The first character of an identifier. -/
def isWordStart (c : Char) : Bool :=
  c.isAlpha || c == '_' || c == '$'

/-- A later character of an identifier. -/
def isWordPart (c : Char) : Bool :=
  c.isAlphanum || c == '_' || c == '$'

/-- Splits behind the first `*/`; without one everything belongs to the comment. -/
def blockCommentRest : List Char → List Char × List Char
  | [] => ([], [])
  | '*' :: '/' :: rest => (['*', '/'], rest)
  | c :: rest => let (body, tail) := blockCommentRest rest; (c :: body, tail)

/-- Splits behind the closing quote of a string, or in front of a line feed that is not
escaped. A backslash takes the next character with it. -/
def quotedRest (quote : Char) : List Char → List Char × List Char
  | [] => ([], [])
  | '\\' :: c :: rest =>
    let (body, tail) := quotedRest quote rest
    ('\\' :: c :: body, tail)
  | c :: rest =>
    if c = '\n' then
      ([], c :: rest)
    else if c = quote then
      ([c], rest)
    else
      let (body, tail) := quotedRest quote rest
      (c :: body, tail)

/-- Splits behind the closing backtick of a template. `depth` counts the braces open in
the current interpolation and is zero in the template's own text; a backtick inside an
interpolation closes nothing. -/
def templateRest : Nat → List Char → List Char × List Char
  | _, [] => ([], [])
  | depth, '\\' :: c :: rest =>
    let (body, tail) := templateRest depth rest
    ('\\' :: c :: body, tail)
  | 0, '$' :: '{' :: rest =>
    let (body, tail) := templateRest 1 rest
    ('$' :: '{' :: body, tail)
  | 0, c :: rest =>
    if c = '`' then
      ([c], rest)
    else
      let (body, tail) := templateRest 0 rest
      (c :: body, tail)
  | depth + 1, c :: rest =>
    let inner := if c = '{' then depth + 2 else if c = '}' then depth else depth + 1
    let (body, tail) := templateRest inner rest
    (c :: body, tail)

/-- The lexeme kind of a character that is a lexeme by itself. -/
def singleKind (c : Char) : LexemeKind :=
  if c = '{' then .opening
  else if c = '}' then .closing
  else if c = ',' then .comma
  else if c = ':' then .colon
  else if Text.isAsciiBlank c then .blank
  else .other

/-- Splits a lexeme off a text that starts with `c`. -/
def nextLexeme (c : Char) (rest : List Char) : Lexeme × List Char :=
  if c = '/' ∧ rest.head? = some '/' then
    (⟨.comment, c :: rest.takeWhile (· != '\n')⟩, rest.dropWhile (· != '\n'))
  else if c = '/' ∧ rest.head? = some '*' then
    let (body, tail) := blockCommentRest rest.tail
    (⟨.comment, c :: '*' :: body⟩, tail)
  else if c = '\'' ∨ c = '"' then
    let (body, tail) := quotedRest c rest
    (⟨.quoted, c :: body⟩, tail)
  else if c = '`' then
    let (body, tail) := templateRest 0 rest
    (⟨.template, c :: body⟩, tail)
  else if isWordStart c then
    (⟨.word, c :: rest.takeWhile isWordPart⟩, rest.dropWhile isWordPart)
  else
    (⟨singleKind c, [c]⟩, rest)

theorem blockCommentRest_append (cs : List Char) :
    (blockCommentRest cs).1 ++ (blockCommentRest cs).2 = cs := by
  fun_induction blockCommentRest cs <;> simp_all

theorem quotedRest_append (quote : Char) (cs : List Char) :
    (quotedRest quote cs).1 ++ (quotedRest quote cs).2 = cs := by
  fun_induction quotedRest quote cs <;> simp_all

theorem templateRest_append (depth : Nat) (cs : List Char) :
    (templateRest depth cs).1 ++ (templateRest depth cs).2 = cs := by
  fun_induction templateRest depth cs <;> simp_all

/-- A lexeme and what follows it are the text it was split off. -/
theorem nextLexeme_append (c : Char) (rest : List Char) :
    (nextLexeme c rest).1.chars ++ (nextLexeme c rest).2 = c :: rest := by
  unfold nextLexeme
  split
  · simp
  split
  · rename_i h
    obtain ⟨-, hr⟩ := h
    cases rest with
    | nil => simp at hr
    | cons d rest =>
        simp only [List.head?_cons, Option.some.injEq] at hr
        subst hr
        simp [blockCommentRest_append]
  split
  · simp [quotedRest_append]
  split
  · simp [templateRest_append]
  split
  · simp
  · simp

theorem nextLexeme_chars_ne_nil (c : Char) (rest : List Char) :
    (nextLexeme c rest).1.chars ≠ [] := by
  unfold nextLexeme
  repeat' split
  all_goals simp

theorem length_nextLexeme_le (c : Char) (rest : List Char) :
    (nextLexeme c rest).2.length ≤ rest.length := by
  have happend := congrArg List.length (nextLexeme_append c rest)
  have hpos := List.length_pos_iff.mpr (nextLexeme_chars_ne_nil c rest)
  simp only [List.length_append, List.length_cons] at happend
  omega

/-- The lexemes of a text. -/
def lexemes : List Char → List Lexeme
  | [] => []
  | c :: rest => (nextLexeme c rest).1 :: lexemes (nextLexeme c rest).2
termination_by cs => cs.length
decreasing_by
  exact Nat.lt_succ_of_le (length_nextLexeme_le c rest)

/-- The lexemes of a text cover it without gaps. -/
theorem flatMap_chars_lexemes (cs : List Char) :
    (lexemes cs).flatMap Lexeme.chars = cs := by
  fun_induction lexemes cs with
  | case1 => rfl
  | case2 c rest ih =>
      rw [List.flatMap_cons, ih, nextLexeme_append]

end StylePrune.Literal
