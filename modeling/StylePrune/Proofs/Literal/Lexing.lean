import Mathlib.Data.List.Infix
import StylePrune.Literal.Lexeme
import StylePrune.Proofs.Text.Runs

/-!
# What the lexemes of a text are

The lexer of style literals is described here without a lexer.  `StopsAt`
says of a run of characters which lexeme it is and what may follow it; the
only thing a lexeme knows of the text behind it is the next character.  A
sequence of lexemes is `Lexed` when each of them may stand in front of the
rest.  `lexemes_eq_iff` says that every text has exactly one such sequence,
the one that the lexer computes.

Because only one character of context counts, a text can be cut at the end of
a lexeme and continued by another text as soon as that one lexeme accepts the
new next character.  Every statement about edited literals rests on this.
-/

namespace StylePrune.Literal

/-! ## The inner parts of the long lexemes -/

/-- Characters of a quoted string: a backslash takes the next character with
it, and neither the quote nor a line feed stands by itself. -/
inductive QuotedText (quote : Char) : List Char → Prop where
  | nil : QuotedText quote []
  | escape {c : Char} {cs : List Char} :
      QuotedText quote cs → QuotedText quote ('\\' :: c :: cs)
  | plain {c : Char} {cs : List Char} :
      c ≠ '\\' → c ≠ '\n' → c ≠ quote →
      QuotedText quote cs → QuotedText quote (c :: cs)

/-- Characters of a template that lead from `d` open braces of interpolations
to `e` open ones. -/
inductive TemplateText : Nat → List Char → Nat → Prop where
  | nil {d : Nat} : TemplateText d [] d
  | escape {d e : Nat} {c : Char} {cs : List Char} :
      TemplateText d cs e → TemplateText d ('\\' :: c :: cs) e
  | enter {e : Nat} {cs : List Char} :
      TemplateText 1 cs e → TemplateText 0 ('$' :: '{' :: cs) e
  | plain {e : Nat} {c : Char} {cs : List Char} :
      c ≠ '\\' → c ≠ '`' → (c = '$' → cs.head? ≠ some '{') →
      TemplateText 0 cs e → TemplateText 0 (c :: cs) e
  | opening {d e : Nat} {cs : List Char} :
      TemplateText (d + 2) cs e → TemplateText (d + 1) ('{' :: cs) e
  | closing {d e : Nat} {cs : List Char} :
      TemplateText d cs e → TemplateText (d + 1) ('}' :: cs) e
  | inner {d e : Nat} {c : Char} {cs : List Char} :
      c ≠ '\\' → c ≠ '{' → c ≠ '}' →
      TemplateText (d + 1) cs e → TemplateText (d + 1) (c :: cs) e

/-- Nothing in the characters ends a block comment. -/
def NoCommentEnd (cs : List Char) : Prop :=
  ¬ ['*', '/'] <:+: cs

/-- What a text that breaks off may end with in place of a whole character:
nothing, or a backslash with nothing to escape. -/
def IsStub (cs : List Char) : Prop :=
  cs = [] ∨ cs = ['\\']

/-! ## Lexemes and the character behind them -/

/-- A character that begins no lexeme of more than one character when `next`
follows it. -/
def IsSingle (c : Char) (next : Option Char) : Prop :=
  c ≠ '\'' ∧ c ≠ '"' ∧ c ≠ '`' ∧ isWordStart c = false ∧
    (c = '/' → next ≠ some '/' ∧ next ≠ some '*')

/-- A lexeme that may stand in front of `next`, or at the end of a text when
`next` is nothing. -/
inductive StopsAt : Lexeme → Option Char → Prop where
  | lineComment {body : List Char} {next : Option Char} :
      '\n' ∉ body → (∀ c, next = some c → c = '\n') →
      StopsAt ⟨.comment, '/' :: '/' :: body⟩ next
  | blockComment {body : List Char} {next : Option Char} :
      NoCommentEnd (body ++ ['*']) →
      StopsAt ⟨.comment, '/' :: '*' :: (body ++ ['*', '/'])⟩ next
  | openComment {body : List Char} :
      NoCommentEnd body → StopsAt ⟨.comment, '/' :: '*' :: body⟩ none
  | quoted {quote : Char} {body : List Char} {next : Option Char} :
      (quote = '\'' ∨ quote = '"') → QuotedText quote body →
      StopsAt ⟨.quoted, quote :: (body ++ [quote])⟩ next
  | brokenQuoted {quote : Char} {body : List Char} :
      (quote = '\'' ∨ quote = '"') → QuotedText quote body →
      StopsAt ⟨.quoted, quote :: body⟩ (some '\n')
  | openQuoted {quote : Char} {body stub : List Char} :
      (quote = '\'' ∨ quote = '"') → QuotedText quote body → IsStub stub →
      StopsAt ⟨.quoted, quote :: (body ++ stub)⟩ none
  | template {body : List Char} {next : Option Char} :
      TemplateText 0 body 0 → StopsAt ⟨.template, '`' :: (body ++ ['`'])⟩ next
  | openTemplate {d : Nat} {body stub : List Char} :
      TemplateText 0 body d → IsStub stub →
      StopsAt ⟨.template, '`' :: (body ++ stub)⟩ none
  | word {c : Char} {cs : List Char} {next : Option Char} :
      isWordStart c = true → (∀ d ∈ cs, isWordPart d = true) →
      (∀ d, next = some d → isWordPart d = false) →
      StopsAt ⟨.word, c :: cs⟩ next
  | single {c : Char} {next : Option Char} :
      IsSingle c next → StopsAt ⟨singleKind c, [c]⟩ next

/-- The characters that a sequence of lexemes covers. -/
def flatten (ls : List Lexeme) : List Char :=
  ls.flatMap Lexeme.chars

@[simp]
theorem flatten_nil : flatten [] = [] := rfl

@[simp]
theorem flatten_cons (l : Lexeme) (ls : List Lexeme) :
    flatten (l :: ls) = l.chars ++ flatten ls := rfl

@[simp]
theorem flatten_append (ls ms : List Lexeme) :
    flatten (ls ++ ms) = flatten ls ++ flatten ms :=
  List.flatMap_append

/-- Each lexeme may stand in front of those that follow it. -/
def Lexed : List Lexeme → Prop
  | [] => True
  | l :: ls => StopsAt l (flatten ls).head? ∧ Lexed ls

/-! ## Block comments -/

theorem noCommentEnd_cons {c : Char} {cs : List Char} :
    NoCommentEnd (c :: cs) ↔
      ¬(c = '*' ∧ cs.head? = some '/') ∧ NoCommentEnd cs := by
  have hfront : ['*', '/'] <+: c :: cs ↔ c = '*' ∧ cs.head? = some '/' := by
    cases cs with
    | nil => simp [List.cons_prefix_cons]
    | cons d cs => simp [List.cons_prefix_cons, eq_comm]
  rw [NoCommentEnd, NoCommentEnd, List.infix_cons_iff, hfront, not_or]

theorem noCommentEnd_nil : NoCommentEnd [] := by
  simp [NoCommentEnd]

theorem blockCommentRest_cons {c : Char} {cs : List Char}
    (h : ¬(c = '*' ∧ cs.head? = some '/')) :
    blockCommentRest (c :: cs) =
      (c :: (blockCommentRest cs).1, (blockCommentRest cs).2) := by
  rw [blockCommentRest]
  rintro rest rfl rfl
  exact h ⟨rfl, rfl⟩

/-- A comment that ends is read up to its end. -/
theorem blockCommentRest_closed {body rest : List Char}
    (h : NoCommentEnd (body ++ ['*'])) :
    blockCommentRest (body ++ '*' :: '/' :: rest) = (body ++ ['*', '/'], rest) := by
  induction body with
  | nil => rfl
  | cons c body ih =>
      rw [List.cons_append, noCommentEnd_cons] at h
      obtain ⟨hc, hbody⟩ := h
      have hnext : ¬(c = '*' ∧ (body ++ '*' :: '/' :: rest).head? = some '/') := by
        cases body with
        | nil => simp
        | cons d body => simpa using hc
      rw [List.cons_append, blockCommentRest_cons hnext, ih hbody]
      rfl

theorem blockCommentRest_open {cs : List Char} (h : NoCommentEnd cs) :
    blockCommentRest cs = (cs, []) := by
  induction cs with
  | nil => rfl
  | cons c cs ih =>
      obtain ⟨hc, hcs⟩ := noCommentEnd_cons.mp h
      rw [blockCommentRest_cons hc, ih hcs]

/-- A text holds the end of a comment at a first place, or not at all. -/
theorem commentEnd_cases (cs : List Char) :
    (∃ body rest, cs = body ++ '*' :: '/' :: rest ∧ NoCommentEnd (body ++ ['*'])) ∨
      NoCommentEnd cs := by
  induction cs with
  | nil => exact Or.inr noCommentEnd_nil
  | cons c cs ih =>
      by_cases hc : c = '*' ∧ cs.head? = some '/'
      · obtain ⟨rfl, hhead⟩ := hc
        obtain ⟨rest, rfl⟩ := List.head?_eq_some_iff.mp hhead
        refine Or.inl ⟨[], rest, rfl, ?_⟩
        exact noCommentEnd_cons.mpr ⟨by simp, noCommentEnd_nil⟩
      · rcases ih with ⟨body, rest, rfl, hbody⟩ | hcs
        · refine Or.inl ⟨c :: body, rest, rfl, ?_⟩
          rw [List.cons_append, noCommentEnd_cons]
          refine ⟨?_, hbody⟩
          cases body with
          | nil => simp
          | cons d body => simpa using hc
        · exact Or.inr (noCommentEnd_cons.mpr ⟨hc, hcs⟩)

/-! ## Quoted strings -/

theorem quotedRest_cons {quote c : Char} {cs : List Char}
    (hc : c ≠ '\\') (hline : c ≠ '\n') (hquote : c ≠ quote) :
    quotedRest quote (c :: cs) =
      (c :: (quotedRest quote cs).1, (quotedRest quote cs).2) := by
  rw [quotedRest]
  · simp [hline, hquote]
  · rintro d rest h -
    exact hc h

theorem quotedRest_append_of_text {quote : Char} {body : List Char}
    (h : QuotedText quote body) (rest : List Char) :
    quotedRest quote (body ++ rest) =
      (body ++ (quotedRest quote rest).1, (quotedRest quote rest).2) := by
  induction h with
  | nil => rfl
  | escape _ ih => simp only [List.cons_append, quotedRest, ih]
  | plain hc hline hquote _ ih =>
      rw [List.cons_append, quotedRest_cons hc hline hquote, ih]
      rfl

theorem quotedRest_quote {quote : Char} (h : quote = '\'' ∨ quote = '"')
    (rest : List Char) : quotedRest quote (quote :: rest) = ([quote], rest) := by
  rcases h with rfl | rfl <;> simp [quotedRest]

theorem quotedRest_line (quote : Char) (rest : List Char) :
    quotedRest quote ('\n' :: rest) = ([], '\n' :: rest) := by
  simp [quotedRest]

theorem quotedRest_stub {quote : Char} {stub : List Char}
    (h : quote = '\'' ∨ quote = '"') (hstub : IsStub stub) :
    quotedRest quote stub = (stub, []) := by
  rcases hstub with rfl | rfl
  · rfl
  · rcases h with rfl | rfl <;> simp [quotedRest]

/-- Where a string that begins in front of a text ends. -/
theorem quotedText_cases (quote : Char) (cs : List Char) :
    ∃ body rest, cs = body ++ rest ∧ QuotedText quote body ∧
      (rest.head? = some quote ∨ rest.head? = some '\n' ∨ IsStub rest) := by
  fun_induction quotedRest quote cs with
  | case1 => exact ⟨[], [], rfl, .nil, Or.inr (Or.inr (Or.inl rfl))⟩
  | case2 c rest _ _ _ ih =>
      obtain ⟨body, tail, rfl, hbody, htail⟩ := ih
      exact ⟨'\\' :: c :: body, tail, rfl, .escape hbody, htail⟩
  | case3 rest => exact ⟨[], '\n' :: rest, rfl, .nil, Or.inr (Or.inl rfl)⟩
  | case4 rest => exact ⟨[], quote :: rest, rfl, .nil, Or.inl rfl⟩
  | case5 c rest hescape hline hquote _ _ _ ih =>
      by_cases hc : c = '\\'
      · subst hc
        cases rest with
        | nil => exact ⟨[], ['\\'], rfl, .nil, Or.inr (Or.inr (Or.inr rfl))⟩
        | cons d rest => exact (hescape d rest rfl rfl).elim
      · obtain ⟨body, tail, rfl, hbody, htail⟩ := ih
        exact ⟨c :: body, tail, rfl, .plain hc hline hquote hbody, htail⟩

/-! ## Templates -/

theorem templateRest_zero_cons {c : Char} {cs : List Char}
    (hc : c ≠ '\\') (htick : c ≠ '`') (hdollar : c = '$' → cs.head? ≠ some '{') :
    templateRest 0 (c :: cs) =
      (c :: (templateRest 0 cs).1, (templateRest 0 cs).2) := by
  rw [templateRest]
  · simp [htick]
  · rintro d rest h -
    exact hc h
  · rintro rest h rfl
    exact hdollar h rfl

theorem templateRest_succ_cons {d : Nat} {c : Char} {cs : List Char}
    (hc : c ≠ '\\') :
    templateRest (d + 1) (c :: cs) =
      let inner := if c = '{' then d + 2 else if c = '}' then d else d + 1
      (c :: (templateRest inner cs).1, (templateRest inner cs).2) := by
  rw [templateRest]
  rintro e rest h -
  exact hc h

theorem templateRest_append_of_text {d e : Nat} {body : List Char}
    (h : TemplateText d body e) (rest : List Char) (hrest : rest.head? ≠ some '{') :
    templateRest d (body ++ rest) =
      (body ++ (templateRest e rest).1, (templateRest e rest).2) := by
  induction h with
  | nil => rfl
  | escape _ ih => simp only [List.cons_append, templateRest, ih]
  | enter _ ih => simp only [List.cons_append, templateRest, ih]
  | @plain e c cs hc htick hdollar _ ih =>
      have hnext : c = '$' → (cs ++ rest).head? ≠ some '{' := by
        intro h
        cases cs with
        | nil => exact hrest
        | cons d cs => exact hdollar h
      rw [List.cons_append, templateRest_zero_cons hc htick hnext, ih]
      rfl
  | opening _ ih =>
      rw [List.cons_append, templateRest_succ_cons (by decide)]
      simp [ih]
  | closing _ ih =>
      rw [List.cons_append, templateRest_succ_cons (by decide)]
      simp [ih]
  | inner hc hopen hclose _ ih =>
      rw [List.cons_append, templateRest_succ_cons hc]
      simp [hopen, hclose, ih]

theorem templateRest_tick (rest : List Char) :
    templateRest 0 ('`' :: rest) = (['`'], rest) := by
  simp [templateRest]

theorem templateRest_stub {d : Nat} {stub : List Char} (h : IsStub stub) :
    templateRest d stub = (stub, []) := by
  rcases h with rfl | rfl
  · cases d <;> rfl
  · cases d <;> simp [templateRest]

/-- Where a template that begins in front of a text ends. -/
theorem templateText_cases (d : Nat) (cs : List Char) :
    ∃ e body rest, cs = body ++ rest ∧ TemplateText d body e ∧
      (e = 0 ∧ rest.head? = some '`' ∨ IsStub rest) := by
  fun_induction templateRest d cs with
  | case1 d => exact ⟨d, [], [], rfl, .nil, Or.inr (Or.inl rfl)⟩
  | case2 d c rest _ _ _ ih =>
      obtain ⟨e, body, tail, rfl, hbody, htail⟩ := ih
      exact ⟨e, '\\' :: c :: body, tail, rfl, .escape hbody, htail⟩
  | case3 rest _ _ _ ih =>
      obtain ⟨e, body, tail, rfl, hbody, htail⟩ := ih
      exact ⟨e, '$' :: '{' :: body, tail, rfl, .enter hbody, htail⟩
  | case4 rest => exact ⟨0, [], '`' :: rest, rfl, .nil, Or.inl ⟨rfl, rfl⟩⟩
  | case5 c rest hescape henter htick _ _ _ ih =>
      by_cases hc : c = '\\'
      · subst hc
        cases rest with
        | nil => exact ⟨0, [], ['\\'], rfl, .nil, Or.inr (Or.inr rfl)⟩
        | cons d rest => exact (hescape d rest rfl rfl).elim
      · obtain ⟨e, body, tail, rfl, hbody, htail⟩ := ih
        have hdollar : c = '$' → body.head? ≠ some '{' := by
          intro h hbrace
          obtain ⟨body', rfl⟩ := List.head?_eq_some_iff.mp hbrace
          exact henter (body' ++ tail) h rfl
        exact ⟨e, c :: body, tail, rfl, .plain hc htick hdollar hbody, htail⟩
  | case6 d c rest hescape inner _ _ _ ih =>
      by_cases hc : c = '\\'
      · subst hc
        cases rest with
        | nil => exact ⟨d + 1, [], ['\\'], rfl, .nil, Or.inr (Or.inr rfl)⟩
        | cons d rest => exact (hescape d rest rfl rfl).elim
      · obtain ⟨e, body, tail, rfl, hbody, htail⟩ := ih
        refine ⟨e, c :: body, tail, rfl, ?_, htail⟩
        by_cases hopen : c = '{'
        · subst hopen
          exact .opening hbody
        · by_cases hclose : c = '}'
          · subst hclose
            exact .closing hbody
          · simp only [inner, hopen, hclose, if_false] at hbody
            exact .inner hc hopen hclose hbody

/-! ## One lexeme -/

theorem exists_quoted_stopsAt {quote : Char} (h : quote = '\'' ∨ quote = '"')
    (cs : List Char) :
    ∃ l rest, l.chars ++ rest = quote :: cs ∧ StopsAt l rest.head? := by
  obtain ⟨body, rest, rfl, hbody, hclose | hline | hstub⟩ := quotedText_cases quote cs
  · obtain ⟨rest, rfl⟩ := List.head?_eq_some_iff.mp hclose
    exact ⟨_, rest, by simp, .quoted h hbody⟩
  · exact ⟨⟨.quoted, quote :: body⟩, rest, rfl, hline ▸ .brokenQuoted h hbody⟩
  · exact ⟨_, [], by simp, .openQuoted h hbody hstub⟩

theorem exists_template_stopsAt (cs : List Char) :
    ∃ l rest, l.chars ++ rest = '`' :: cs ∧ StopsAt l rest.head? := by
  obtain ⟨e, body, rest, rfl, hbody, ⟨rfl, hclose⟩ | hstub⟩ := templateText_cases 0 cs
  · obtain ⟨rest, rfl⟩ := List.head?_eq_some_iff.mp hclose
    exact ⟨_, rest, by simp, .template hbody⟩
  · exact ⟨_, [], by simp, .openTemplate hbody hstub⟩

theorem exists_comment_stopsAt {c : Char} (h : c = '/' ∨ c = '*') (cs : List Char) :
    ∃ l rest, l.chars ++ rest = '/' :: c :: cs ∧ StopsAt l rest.head? := by
  rcases h with rfl | rfl
  · refine ⟨⟨.comment, '/' :: '/' :: cs.takeWhile (· != '\n')⟩,
      cs.dropWhile (· != '\n'), by simp, .lineComment ?_ ?_⟩
    · intro hmem
      simpa using List.mem_takeWhile_imp hmem
    · intro c hc
      simpa using Text.head?_dropWhile_eq_false hc
  · rcases commentEnd_cases cs with ⟨body, rest, rfl, hbody⟩ | hopen
    · exact ⟨_, rest, by simp, .blockComment hbody⟩
    · exact ⟨_, [], by simp, .openComment hopen⟩

/-- Every text that is not empty begins with a lexeme. -/
theorem exists_stopsAt (c : Char) (cs : List Char) :
    ∃ l rest, l.chars ++ rest = c :: cs ∧ StopsAt l rest.head? := by
  by_cases hquote : c = '\'' ∨ c = '"'
  · exact exists_quoted_stopsAt hquote cs
  by_cases htick : c = '`'
  · exact htick ▸ exists_template_stopsAt cs
  by_cases hword : isWordStart c = true
  · refine ⟨⟨.word, c :: cs.takeWhile isWordPart⟩, cs.dropWhile isWordPart,
      by simp, .word hword (fun d hd => List.mem_takeWhile_imp hd) ?_⟩
    intro d hd
    exact Text.head?_dropWhile_eq_false hd
  by_cases hslash : c = '/' ∧ (cs.head? = some '/' ∨ cs.head? = some '*')
  · obtain ⟨rfl, hnext | hnext⟩ := hslash
    · obtain ⟨rest, rfl⟩ := List.head?_eq_some_iff.mp hnext
      exact exists_comment_stopsAt (Or.inl rfl) rest
    · obtain ⟨rest, rfl⟩ := List.head?_eq_some_iff.mp hnext
      exact exists_comment_stopsAt (Or.inr rfl) rest
  · refine ⟨⟨singleKind c, [c]⟩, cs, rfl, .single ?_⟩
    rw [not_or] at hquote
    refine ⟨hquote.1, hquote.2, htick, by simpa using hword, fun hc => ?_⟩
    exact ⟨fun h => hslash ⟨hc, Or.inl h⟩, fun h => hslash ⟨hc, Or.inr h⟩⟩

theorem isWordStart_ne {c : Char} (h : isWordStart c = true) :
    c ≠ '/' ∧ c ≠ '\'' ∧ c ≠ '"' ∧ c ≠ '`' := by
  refine ⟨?_, ?_, ?_, ?_⟩
  all_goals
    rintro rfl
    exact absurd h (by decide)

theorem nextLexeme_line (cs : List Char) :
    nextLexeme '/' ('/' :: cs) =
      (⟨.comment, '/' :: '/' :: cs.takeWhile (· != '\n')⟩, cs.dropWhile (· != '\n')) := by
  simp [nextLexeme]

theorem nextLexeme_block (cs : List Char) :
    nextLexeme '/' ('*' :: cs) =
      (⟨.comment, '/' :: '*' :: (blockCommentRest cs).1⟩, (blockCommentRest cs).2) := by
  simp [nextLexeme]

theorem nextLexeme_quote {quote : Char} (h : quote = '\'' ∨ quote = '"')
    (cs : List Char) :
    nextLexeme quote cs =
      (⟨.quoted, quote :: (quotedRest quote cs).1⟩, (quotedRest quote cs).2) := by
  rcases h with rfl | rfl <;> simp [nextLexeme]

theorem nextLexeme_tick (cs : List Char) :
    nextLexeme '`' cs =
      (⟨.template, '`' :: (templateRest 0 cs).1⟩, (templateRest 0 cs).2) := by
  simp [nextLexeme]

theorem nextLexeme_word {c : Char} (h : isWordStart c = true) (cs : List Char) :
    nextLexeme c cs = (⟨.word, c :: cs.takeWhile isWordPart⟩, cs.dropWhile isWordPart) := by
  obtain ⟨hslash, hquote, hdouble, htick⟩ := isWordStart_ne h
  simp [nextLexeme, hslash, hquote, hdouble, htick, h]

theorem nextLexeme_single {c : Char} {cs : List Char} (h : IsSingle c cs.head?) :
    nextLexeme c cs = (⟨singleKind c, [c]⟩, cs) := by
  obtain ⟨hquote, hdouble, htick, hword, hslash⟩ := h
  by_cases hc : c = '/'
  · simp [nextLexeme, hquote, hdouble, htick, hword, (hslash hc).1, (hslash hc).2]
  · simp [nextLexeme, hquote, hdouble, htick, hword, hc]

/-- The lexer splits a lexeme off a text that continues as the lexeme allows. -/
theorem nextLexeme_eq_of_stopsAt {l : Lexeme} {c : Char} {cs rest : List Char}
    (h : StopsAt l rest.head?) (hchars : l.chars = c :: cs) :
    nextLexeme c (cs ++ rest) = (l, rest) := by
  generalize hnext : rest.head? = next at h
  cases h with
  | @lineComment body _ hbody hstop =>
      obtain ⟨rfl, rfl⟩ := List.cons.inj hchars
      have hrun : ∀ c ∈ body, (c != '\n') = true := by
        intro c hc
        simpa using fun h : c = '\n' => hbody (h ▸ hc)
      have hrest : ∀ c, rest.head? = some c → (c != '\n') = false := by
        intro c hc
        simpa using hstop c (hnext ▸ hc)
      rw [List.cons_append, nextLexeme_line, Text.takeWhile_append_eq hrun hrest,
        Text.dropWhile_append_eq hrun hrest]
  | blockComment hbody =>
      obtain ⟨rfl, rfl⟩ := List.cons.inj hchars
      simp [nextLexeme_block, blockCommentRest_closed hbody]
  | openComment hbody =>
      obtain ⟨rfl, rfl⟩ := List.cons.inj hchars
      obtain rfl := List.head?_eq_none_iff.mp hnext
      simp [nextLexeme_block, blockCommentRest_open hbody]
  | quoted hquote hbody =>
      obtain ⟨rfl, rfl⟩ := List.cons.inj hchars
      simp [nextLexeme_quote hquote, quotedRest_append_of_text hbody,
        quotedRest_quote hquote]
  | brokenQuoted hquote hbody =>
      obtain ⟨rfl, rfl⟩ := List.cons.inj hchars
      obtain ⟨rest, rfl⟩ := List.head?_eq_some_iff.mp hnext
      simp [nextLexeme_quote hquote, quotedRest_append_of_text hbody, quotedRest_line]
  | openQuoted hquote hbody hstub =>
      obtain ⟨rfl, rfl⟩ := List.cons.inj hchars
      obtain rfl := List.head?_eq_none_iff.mp hnext
      simp [nextLexeme_quote hquote, quotedRest_append_of_text hbody,
        quotedRest_stub hquote hstub]
  | template hbody =>
      obtain ⟨rfl, rfl⟩ := List.cons.inj hchars
      have hread := templateRest_append_of_text hbody ('`' :: rest) (by simp)
      simp [nextLexeme_tick, hread, templateRest_tick]
  | @openTemplate d body stub hbody hstub =>
      obtain ⟨rfl, rfl⟩ := List.cons.inj hchars
      obtain rfl := List.head?_eq_none_iff.mp hnext
      have hrest : stub.head? ≠ some '{' := by
        rcases hstub with rfl | rfl <;> simp
      simp [nextLexeme_tick, templateRest_append_of_text hbody stub hrest,
        templateRest_stub hstub]
  | word hstart hparts hstop =>
      obtain ⟨rfl, rfl⟩ := List.cons.inj hchars
      have hrest : ∀ d, rest.head? = some d → isWordPart d = false := by
        intro d hd
        exact hstop d (hnext ▸ hd)
      rw [nextLexeme_word hstart, Text.takeWhile_append_eq hparts hrest,
        Text.dropWhile_append_eq hparts hrest]
  | single hsingle =>
      obtain ⟨rfl, rfl⟩ := List.cons.inj hchars
      exact nextLexeme_single (hnext ▸ hsingle)

theorem StopsAt.exists_cons {l : Lexeme} {next : Option Char} (h : StopsAt l next) :
    ∃ c cs, l.chars = c :: cs := by
  cases h <;> exact ⟨_, _, rfl⟩

/-- What the lexer splits off a text may stand in front of the rest. -/
theorem stopsAt_nextLexeme (c : Char) (cs : List Char) :
    StopsAt (nextLexeme c cs).1 (nextLexeme c cs).2.head? := by
  obtain ⟨l, rest, hsplit, hstop⟩ := exists_stopsAt c cs
  obtain ⟨d, ds, hchars⟩ := hstop.exists_cons
  rw [hchars, List.cons_append] at hsplit
  obtain ⟨rfl, rfl⟩ := List.cons.inj hsplit
  rw [nextLexeme_eq_of_stopsAt hstop hchars]
  exact hstop

/-! ## All lexemes -/

theorem lexemes_cons (c : Char) (cs : List Char) :
    lexemes (c :: cs) = (nextLexeme c cs).1 :: lexemes (nextLexeme c cs).2 := by
  rw [lexemes]

theorem flatten_lexemes (text : List Char) : flatten (lexemes text) = text :=
  flatMap_chars_lexemes text

theorem lexed_lexemes (text : List Char) : Lexed (lexemes text) := by
  fun_induction lexemes text with
  | case1 => trivial
  | case2 c cs ih =>
      refine ⟨?_, ih⟩
      rw [flatten_lexemes]
      exact stopsAt_nextLexeme c cs

theorem lexemes_flatten {ls : List Lexeme} (h : Lexed ls) : lexemes (flatten ls) = ls := by
  induction ls with
  | nil => simp [lexemes]
  | cons l ls ih =>
      obtain ⟨hstop, hls⟩ := h
      obtain ⟨c, cs, hchars⟩ := hstop.exists_cons
      rw [flatten_cons, hchars, List.cons_append, lexemes_cons,
        nextLexeme_eq_of_stopsAt hstop hchars, ih hls]

/-- The lexemes of a text are the one sequence of lexemes that covers it. -/
theorem lexemes_eq_iff {text : List Char} {ls : List Lexeme} :
    lexemes text = ls ↔ flatten ls = text ∧ Lexed ls := by
  constructor
  · rintro rfl
    exact ⟨flatten_lexemes text, lexed_lexemes text⟩
  · rintro ⟨rfl, h⟩
    exact lexemes_flatten h

/-! ## The characters of a lexeme -/

theorem Lexed.proper {ls : List Lexeme} (h : Lexed ls) {l : Lexeme} (hl : l ∈ ls) :
    ∃ next, StopsAt l next := by
  induction ls with
  | nil => cases hl
  | cons k ls ih =>
      rcases List.mem_cons.mp hl with rfl | hl
      · exact ⟨_, h.1⟩
      · exact ih h.2 hl

theorem Lexed.right {ls ms : List Lexeme} (h : Lexed (ls ++ ms)) : Lexed ms := by
  induction ls with
  | nil => exact h
  | cons l ls ih => exact ih h.2

theorem StopsAt.chars_of_punctuation {l : Lexeme} {next : Option Char} (h : StopsAt l next)
    {c : Char} (hc : c = ',' ∨ c = '}') (hkind : l.kind = singleKind c) :
    l.chars = [c] := by
  cases h with
  | @single d _ _ =>
      have hd : d = c := by
        rcases hc with rfl | rfl
        · unfold singleKind at hkind
          grind
        · unfold singleKind at hkind
          grind
      rw [hd]
  | _ => rcases hc with rfl | rfl <;> cases hkind

theorem StopsAt.chars_of_blank {l : Lexeme} {next : Option Char} (h : StopsAt l next)
    (hkind : l.kind = .blank) : ∃ c, l.chars = [c] ∧ Text.isAsciiBlank c = true := by
  cases h with
  | @single c _ _ =>
      refine ⟨c, rfl, ?_⟩
      unfold singleKind at hkind
      grind
  | _ => cases hkind

theorem isAsciiBlank_eq_false_of_isWordStart {c : Char} (h : isWordStart c = true) :
    Text.isAsciiBlank c = false := by
  by_contra hblank
  simp only [Bool.not_eq_false, Text.isAsciiBlank, Bool.or_eq_true, beq_iff_eq] at hblank
  rcases hblank with (((rfl | rfl) | rfl) | rfl) | rfl
  all_goals exact absurd h (by decide)

theorem singleKind_of_isAsciiBlank {c : Char} (h : Text.isAsciiBlank c = true) :
    singleKind c = .blank := by
  simp only [Text.isAsciiBlank, Bool.or_eq_true, beq_iff_eq] at h
  rcases h with (((rfl | rfl) | rfl) | rfl) | rfl
  all_goals decide

/-- Only white space begins with white space. -/
theorem StopsAt.exists_cons_of_not_blank {l : Lexeme} {next : Option Char}
    (h : StopsAt l next) (hkind : l.kind ≠ .blank) :
    ∃ c cs, l.chars = c :: cs ∧ Text.isAsciiBlank c = false := by
  cases h with
  | quoted hquote _ | brokenQuoted hquote _ | openQuoted hquote _ _ =>
      exact ⟨_, _, rfl, by rcases hquote with rfl | rfl <;> decide⟩
  | word hstart _ _ => exact ⟨_, _, rfl, isAsciiBlank_eq_false_of_isWordStart hstart⟩
  | single _ =>
      refine ⟨_, _, rfl, ?_⟩
      by_contra hblank
      exact hkind (singleKind_of_isAsciiBlank (by simpa using hblank))
  | _ => exact ⟨_, _, rfl, by decide⟩

end StylePrune.Literal
