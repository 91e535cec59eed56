import StylePrune.Proofs.Literal.Reading

/-!
# One pass against two stages

The reader of literals, which goes over the text once, and the reading in two
stages, which lays the lexemes out in pieces first, agree on every text and
every marker: on the offsets without exception, and on the names except where a
quoted name breaks off at the end of its line behind an escaped quote.  The
reader takes that escaped quote for the one that closes the string and leaves it
out of the name.
-/

namespace StylePrune.Literal

/-- The text up to a quote that is not escaped. -/
def untilQuote (quote : Char) : List Char → List Char
  | [] => []
  | '\\' :: c :: cs => '\\' :: c :: untilQuote quote cs
  | c :: cs => if c = quote then [] else c :: untilQuote quote cs

/-- The inside of a quoted string, and any other lexeme as it is. -/
def Lexeme.inside (l : Lexeme) : String :=
  match l.kind, l.chars with
  | .quoted, quote :: body => String.ofList (untilQuote quote body)
  | _, chars => String.ofList chars

/-- A quoted string that nothing closes and whose last character is its quote,
which is then an escaped one. -/
def Lexeme.EndsEscaped (l : Lexeme) : Prop :=
  l.kind = .quoted ∧ ∃ quote body,
    l.chars = quote :: body ∧ untilQuote quote body = body ∧ body.getLast? = some quote

theorem untilQuote_append {quote : Char} {body : List Char} (h : QuotedText quote body)
    (rest : List Char) :
    untilQuote quote (body ++ rest) = body ++ untilQuote quote rest := by
  induction h with
  | nil => rfl
  | escape _ ih => simp only [List.cons_append, untilQuote, ih]
  | plain hc _ hquote _ ih =>
      rw [List.cons_append, untilQuote]
      · simp [hquote, ih]
      · rintro d rest h -
        exact hc h

theorem untilQuote_quote {quote : Char} (h : quote = '\'' ∨ quote = '"')
    (rest : List Char) : untilQuote quote (quote :: rest) = [] := by
  rcases h with rfl | rfl <;> simp [untilQuote]

theorem untilQuote_stub {quote : Char} {stub : List Char}
    (h : quote = '\'' ∨ quote = '"') (hstub : IsStub stub) :
    untilQuote quote stub = stub := by
  rcases hstub with rfl | rfl
  · rfl
  · rcases h with rfl | rfl <;> simp [untilQuote]

/-- A string either is closed behind its inside, or is all inside. -/
theorem StopsAt.quoted_cases {l : Lexeme} {next : Option Char} (h : StopsAt l next)
    (hkind : l.kind = .quoted) :
    ∃ quote body, l.chars = quote :: body ∧
      (body = untilQuote quote body ++ [quote] ∨ untilQuote quote body = body) := by
  cases h with
  | @quoted quote body _ hquote hbody =>
      refine ⟨quote, body ++ [quote], rfl, Or.inl ?_⟩
      rw [untilQuote_append hbody, untilQuote_quote hquote, List.append_nil]
  | @brokenQuoted quote body hquote hbody =>
      refine ⟨quote, body, rfl, Or.inr ?_⟩
      simpa [untilQuote] using untilQuote_append hbody []
  | @openQuoted quote body stub hquote hbody hstub =>
      refine ⟨quote, body ++ stub, rfl, Or.inr ?_⟩
      rw [untilQuote_append hbody, untilQuote_stub hquote hstub]
  | single _ =>
      unfold singleKind at hkind
      grind
  | _ => cases hkind

/-- The reader's name for a key is its inside, unless it ends escaped. -/
theorem StopsAt.name_eq_inside_iff {l : Lexeme} {next : Option Char} (h : StopsAt l next) :
    l.name = l.inside ↔ ¬l.EndsEscaped := by
  by_cases hkind : l.kind = .quoted
  · obtain ⟨quote, body, hchars, hbody⟩ := h.quoted_cases hkind
    have hname : l.name =
        String.ofList (if body.getLast? = some quote then body.dropLast else body) := by
      simp [Lexeme.name, hkind, hchars, quotedName]
    have hinside : l.inside = String.ofList (untilQuote quote body) := by
      simp [Lexeme.inside, hkind, hchars]
    have hescaped : l.EndsEscaped ↔
        untilQuote quote body = body ∧ body.getLast? = some quote := by
      simp [Lexeme.EndsEscaped, hkind, hchars]
    rw [hname, hinside, hescaped, String.ofList_inj]
    rcases hbody with hclosed | hopen
    · generalize untilQuote quote body = inside at hclosed ⊢
      subst hclosed
      simp
    · rw [hopen]
      by_cases hlast : body.getLast? = some quote
      · have hne : body.dropLast ≠ body := by
          intro heq
          have hlength := congrArg List.length heq
          have hpos : body ≠ [] := by
            rintro rfl
            cases hlast
          have := List.length_pos_iff.mpr hpos
          rw [List.length_dropLast] at hlength
          omega
        simp [hlast, hne]
      · simp [hlast]
  · have hname : l.name = String.ofList l.chars := by simp [Lexeme.name, hkind]
    have hinside : l.inside = String.ofList l.chars := by
      unfold Lexeme.inside
      split
      · rename_i h' _
        exact (hkind h').elim
      · rfl
    simp [hname, hinside, Lexeme.EndsEscaped, hkind]

/-! ## The two readings -/

/-- Two ways of naming list the same keys if they name every member alike. -/
theorem spans_eq_iff {nameOf nameOf' : Lexeme → String} (pos : Nat) (closed : Bool)
    (ps : List (List Lexeme)) :
    spans nameOf pos closed ps = spans nameOf' pos closed ps ↔
      ∀ p ∈ ps, ∀ m, member? p = some m → nameOf m.key = nameOf' m.key := by
  induction ps generalizing pos with
  | nil => simp [spans]
  | cons p ps ih =>
      have hps := ih (pos + Text.size (flatten p) + 1)
      cases hm : member? p with
      | none => simp [spans, hm, hps]
      | some m => simp [spans, hm, hps, Member.span]

theorem literalOf_eq_iff {front marker : List Char} {body rest : List Lexeme}
    {ps : List (List Lexeme)} {nameOf nameOf' : Lexeme → String} :
    literalOf nameOf front marker body ps rest =
        literalOf nameOf' front marker body ps rest ↔
      ∀ p ∈ ps, ∀ m, member? p = some m → nameOf m.key = nameOf' m.key := by
  rw [← spans_eq_iff (Text.size front + Text.size marker) (!rest.isEmpty) ps]
  simp [literalOf]

theorem LaidOut.literalOf_name_eq_inside_iff {marker text front : List Char}
    {body rest : List Lexeme} {ps : List (List Lexeme)}
    (h : LaidOut marker text front body ps rest) :
    literalOf Lexeme.name front marker body ps rest =
        literalOf Lexeme.inside front marker body ps rest ↔
      ∀ p ∈ ps, ∀ m, member? p = some m → ¬m.key.EndsEscaped := by
  rw [literalOf_eq_iff]
  refine forall₄_congr fun p hp m hm => ?_
  obtain ⟨next, hstop⟩ := h.proper (h.layout.mem_body hp (mem_of_member?_eq_some hm))
  exact hstop.name_eq_inside_iff

/-- The reader finds nothing exactly where the marker does not occur.  Elsewhere it
finds what the lexemes behind the first marker, laid out in pieces, stand for, and
names each key by its inside exactly when no key ends escaped. -/
theorem find?_eq_layout_reading (marker text : List Char) :
    (find? marker text = none ↔ ¬ marker <:+: text) ∧
      ∀ literal, find? marker text = some literal ↔
        ∃ front body ps rest, LaidOut marker text front body ps rest ∧
          literal = literalOf Lexeme.name front marker body ps rest ∧
          (literal = literalOf Lexeme.inside front marker body ps rest ↔
            ∀ p ∈ ps, ∀ m, member? p = some m → ¬m.key.EndsEscaped) := by
  constructor
  · rw [find?, Option.map_eq_none_iff, Text.splitFirst_eq_none_iff]
  intro literal
  refine find?_eq_some_iff.trans ?_
  constructor
  · rintro ⟨front, body, ps, rest, hlaid, rfl⟩
    exact ⟨front, body, ps, rest, hlaid, rfl, hlaid.literalOf_name_eq_inside_iff⟩
  · rintro ⟨front, body, ps, rest, hlaid, hliteral, -⟩
    exact ⟨front, body, ps, rest, hlaid, hliteral⟩

/-- A string that breaks off behind an escaped quote is a key whose name lacks the
quote. -/
theorem find?_name_of_broken_string :
    (find? ['(', '{'] "(\x7b'a\\'\n:{}\x7d)".toList).map
        (fun literal => literal.keys.map KeySpan.name) = some ["a\\"] ∧
      (lexemes "'a\\'\n:{}\x7d)".toList).head?.map Lexeme.inside = some "a\\'" := by
  decide +kernel

end StylePrune.Literal
