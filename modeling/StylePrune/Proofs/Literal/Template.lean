import StylePrune.Proofs.Literal.Octets.Lexing

/-!
# Template literals

A template is text with interpolations in it, and the code of an interpolation may hold
braces in pairs, closed strings and templates again.  The lexer keeps no more of all this
than a count of braces, and it counts those in strings and in the text of inner templates
too.  So it takes a template for one lexeme whenever these braces match as well, however
deep they stand; one brace without a partner in a string can make it stop at an inner
backtick or miss the last one.
-/

namespace StylePrune.Literal

open Text

/-! ## Syntax -/

/-- A character that stands by itself or behind a backslash. -/
inductive Letter where
  | bare (c : Char)
  | escaped (c : Char)
deriving DecidableEq, Repr

def Letter.chars : Letter → List Char
  | .bare c => [c]
  | .escaped c => ['\\', c]

/-- A letter is none of some characters, nor a backslash, unless it stands behind a
backslash. -/
def Letter.Avoids (cs : List Char) : Letter → Prop
  | .bare c => c ∉ '\\' :: cs
  | .escaped _ => True

def spell (ls : List Letter) : List Char :=
  ls.flatMap Letter.chars

/-- What a backtick or a `${` begins: text or code. -/
inductive Region where
  | text
  | code

/-- What stands in front of the backtick that closes a text, or in front of the brace that
closes some code. -/
inductive Inside : Region → Type where
  | nil {region : Region} : Inside region
  | letter (l : Letter) (rest : Inside .text) : Inside .text
  | interpolation (code : Inside .code) (rest : Inside .text) : Inside .text
  | plain (l : Letter) (rest : Inside .code) : Inside .code
  | braces (code rest : Inside .code) : Inside .code
  | quoted (quote : Char) (inside : List Letter) (rest : Inside .code) : Inside .code
  | template (text : Inside .text) (rest : Inside .code) : Inside .code

namespace Inside

def chars : {region : Region} → Inside region → List Char
  | _, nil => []
  | _, letter l rest => l.chars ++ rest.chars
  | _, interpolation code rest => '$' :: '{' :: (code.chars ++ '}' :: rest.chars)
  | _, plain l rest => l.chars ++ rest.chars
  | _, braces code rest => '{' :: (code.chars ++ '}' :: rest.chars)
  | _, quoted quote inside rest => quote :: (spell inside ++ quote :: rest.chars)
  | _, template text rest => '`' :: (text.chars ++ '`' :: rest.chars)

/-- Text is free of bare backticks, and a dollar sign in front of a brace belongs to an
interpolation.  Code is free of bare quotes and braces outside its strings and pairs. -/
def WellFormed : {region : Region} → Inside region → Prop
  | _, nil => True
  | _, letter l rest =>
    l.Avoids ['`'] ∧ (l = .bare '$' → rest.chars.head? ≠ some '{') ∧ rest.WellFormed
  | _, interpolation code rest => code.WellFormed ∧ rest.WellFormed
  | _, plain l rest => l.Avoids ['{', '}', '\'', '"', '`'] ∧ rest.WellFormed
  | _, braces code rest => code.WellFormed ∧ rest.WellFormed
  | _, quoted quote inside rest =>
    (quote = '\'' ∨ quote = '"') ∧ (∀ l ∈ inside, l.Avoids [quote]) ∧ rest.WellFormed
  | _, template text rest => text.WellFormed ∧ rest.WellFormed

end Inside

/-- A template literal. -/
structure Template where
  inside : Inside .text
  wellFormed : inside.WellFormed

def Template.chars (t : Template) : List Char :=
  '`' :: (t.inside.chars ++ ['`'])

/-- In front of a text, the lexer takes a template for one lexeme. -/
def Template.IsWhole (t : Template) (rest : List Char) : Prop :=
  nextLexeme '`' (t.inside.chars ++ '`' :: rest) = (⟨.template, t.chars⟩, rest)

instance (t : Template) (rest : List Char) : Decidable (t.IsWhole rest) :=
  inferInstanceAs (Decidable (nextLexeme _ _ = _))

/-! ## Braces that match -/

/-- The number of braces open behind a letter.  No brace closes that was not opened. -/
def Letter.height? : Nat → Letter → Option Nat
  | h, .bare '{' => some (h + 1)
  | 0, .bare '}' => none
  | h + 1, .bare '}' => some h
  | h, _ => some h

/-- The number of braces open behind letters. -/
def heightAfter : Nat → List Letter → Option Nat
  | h, [] => some h
  | h, l :: ls => (l.height? h).bind fun next => heightAfter next ls

/-- Every bare brace of the letters has its partner among them. -/
def BracesMatch (ls : List Letter) : Prop :=
  heightAfter 0 ls = some 0

namespace Inside

/-- The letters of a text outside its interpolations. -/
def own : {region : Region} → Inside region → List Letter
  | _, letter l rest => l :: rest.own
  | _, interpolation _ rest => rest.own
  | _, _ => []

/-- In the strings of an inside, and in the inner templates outside their interpolations,
all braces match. -/
def Matches : {region : Region} → Inside region → Prop
  | _, nil => True
  | _, letter _ rest => rest.Matches
  | _, interpolation code rest => code.Matches ∧ rest.Matches
  | _, plain _ rest => rest.Matches
  | _, braces code rest => code.Matches ∧ rest.Matches
  | _, quoted _ inside rest => BracesMatch inside ∧ rest.Matches
  | _, template text rest => BracesMatch text.own ∧ text.Matches ∧ rest.Matches

@[simp]
theorem own_code (code : Inside .code) : code.own = [] := by
  cases code <;> rfl

theorem bracesMatch_own (code : Inside .code) : BracesMatch code.own := by
  rw [own_code]
  rfl

end Inside

theorem Letter.Avoids.bare_ne {cs : List Char} {c d : Char} (h : (Letter.bare c).Avoids cs)
    (hd : d ∈ '\\' :: cs) : c ≠ d := by
  rintro rfl
  exact h hd

/-! ## The count of the lexer -/

/-- Where characters stand in an interpolation, the count of the lexer rises and falls with
the braces of some letters, by whatever number it is ahead, and no backtick among the
characters ends the template. -/
def CountsAs (ls : List Letter) (cs : List Char) : Prop :=
  ∀ (h k n e : Nat) (more : List Char), heightAfter h ls = some k →
    TemplateText (k + n + 1) more e → TemplateText (h + n + 1) (cs ++ more) e

/-- Where characters stand in an interpolation, the count of the lexer is the same behind
them as in front. -/
def KeepsCount (cs : List Char) : Prop :=
  ∀ (d e : Nat) (more : List Char),
    TemplateText (d + 1) more e → TemplateText (d + 1) (cs ++ more) e

theorem CountsAs.keepsCount {ls : List Letter} {cs : List Char} (h : CountsAs ls cs)
    (hls : BracesMatch ls) : KeepsCount cs := by
  intro d e more hmore
  rw [← Nat.zero_add d] at hmore ⊢
  exact h 0 0 d e more hls hmore

theorem countsAs_nil : CountsAs [] [] := by
  intro h k n e more hheight hmore
  obtain rfl := Option.some.inj hheight
  exact hmore

theorem CountsAs.letter {ls : List Letter} {cs : List Char} (h : CountsAs ls cs)
    {l : Letter} {ds : List Char} (hl : l.Avoids ds) :
    CountsAs (l :: ls) (l.chars ++ cs) := by
  intro h₀ k n e more hheight hmore
  obtain ⟨next, hnext, hafter⟩ := Option.bind_eq_some_iff.mp hheight
  have hbehind := h next k n e more hafter hmore
  rw [List.append_assoc]
  unfold Letter.height? at hnext
  split at hnext
  · obtain rfl := Option.some.inj hnext
    rw [Nat.add_right_comm h₀ 1 n] at hbehind
    exact .opening hbehind
  · cases hnext
  · rename_i h₁
    obtain rfl := Option.some.inj hnext
    rw [Nat.add_right_comm h₁ 1 n]
    exact .closing hbehind
  · rename_i hopen hzero hclose
    obtain rfl := Option.some.inj hnext
    cases l with
    | escaped c => exact .escape hbehind
    | bare c =>
        have hbrace : c ≠ '}' := by
          rintro rfl
          cases h₀ with
          | zero => exact hzero rfl rfl
          | succ h₁ => exact hclose h₁ rfl rfl
        have hc : c ≠ '{' := fun heq => hopen (congrArg _ heq)
        exact .inner (hl.bare_ne List.mem_cons_self) hc hbrace hbehind

theorem countsAs_spell {ls : List Letter} {cs : List Char} (h : ∀ l ∈ ls, l.Avoids cs) :
    CountsAs ls (spell ls) := by
  induction ls with
  | nil => exact countsAs_nil
  | cons l ls ih =>
      obtain ⟨hl, hls⟩ := List.forall_mem_cons.mp h
      exact (ih hls).letter hl

theorem Letter.height?_of_avoids {l : Letter} {cs : List Char} (hl : l.Avoids cs)
    (hopen : '{' ∈ cs) (hclose : '}' ∈ cs) (h : Nat) : l.height? h = some h := by
  cases l with
  | escaped c => cases h <;> rfl
  | bare c =>
      have hc : c ≠ '{' := hl.bare_ne (List.mem_cons_of_mem _ hopen)
      have hc' : c ≠ '}' := hl.bare_ne (List.mem_cons_of_mem _ hclose)
      cases h <;> simp [Letter.height?, hc, hc']

theorem keepsCount_plain {l : Letter} (hl : l.Avoids ['{', '}', '\'', '"', '`']) :
    KeepsCount l.chars := by
  have hmatch : BracesMatch [l] := by
    rw [BracesMatch, heightAfter, Letter.height?_of_avoids hl (by decide) (by decide)]
    rfl
  simpa using (countsAs_nil.letter hl).keepsCount hmatch

/-- A dollar sign and the signs in which strings and templates stand are no braces. -/
theorem keepsCount_sign {c : Char} (hc : c ∈ ['$', '\'', '"', '`']) : KeepsCount [c] := by
  intro d e more hmore
  refine .inner ?_ ?_ ?_ hmore
  all_goals
    rintro rfl
    exact absurd hc (by decide)

theorem KeepsCount.append {cs : List Char} (h : KeepsCount cs) {ls : List Letter}
    {ds : List Char} (hds : CountsAs ls ds) : CountsAs ls (cs ++ ds) := by
  intro h₀ k n e more hheight hmore
  rw [List.append_assoc]
  exact h _ e _ (hds h₀ k n e more hheight hmore)

theorem KeepsCount.braces {cs : List Char} (h : KeepsCount cs) {ls : List Letter}
    {ds : List Char} (hds : CountsAs ls ds) : CountsAs ls ('{' :: (cs ++ '}' :: ds)) := by
  intro h₀ k n e more hheight hmore
  have hbehind := hds h₀ k n e more hheight hmore
  have hclosed := h (h₀ + n + 1) e _ (.closing hbehind)
  rw [List.cons_append, List.append_assoc]
  exact .opening hclosed

/-- A string or a template stands between two equal signs. -/
theorem KeepsCount.between {c : Char} (hc : c ∈ ['$', '\'', '"', '`']) {cs : List Char}
    (h : KeepsCount cs) {ls : List Letter} {ds : List Char} (hds : CountsAs ls ds) :
    CountsAs ls (c :: (cs ++ c :: ds)) :=
  (keepsCount_sign hc).append (h.append ((keepsCount_sign hc).append hds))

/-- The code of an interpolation has no braces to count that are not closed in it, and a
template in the code has those of its own text. -/
theorem Inside.countsAs {region : Region} {t : Inside region} (hwell : t.WellFormed)
    (hmatch : t.Matches) : CountsAs t.own t.chars := by
  induction t with
  | nil => exact countsAs_nil
  | letter l rest ih => exact (ih hwell.2.2 hmatch).letter hwell.1
  | interpolation code rest ihCode ihRest =>
      have hcode := (ihCode hwell.1 hmatch.1).keepsCount (bracesMatch_own code)
      exact (keepsCount_sign (by decide)).append (hcode.braces (ihRest hwell.2 hmatch.2))
  | plain l rest ih =>
      have hbehind := ih hwell.2 hmatch
      rw [own_code] at hbehind ⊢
      exact (keepsCount_plain hwell.1).append hbehind
  | braces code rest ihCode ihRest =>
      have hcode := (ihCode hwell.1 hmatch.1).keepsCount (bracesMatch_own code)
      have hbehind := ihRest hwell.2 hmatch.2
      rw [own_code] at hbehind ⊢
      exact hcode.braces hbehind
  | quoted quote inside rest ih =>
      obtain ⟨hquote, hinside, hrest⟩ := hwell
      have hsign : quote ∈ ['$', '\'', '"', '`'] := by
        rcases hquote with rfl | rfl <;> decide
      have hstring := (countsAs_spell hinside).keepsCount hmatch.1
      have hbehind := ih hrest hmatch.2
      rw [own_code] at hbehind ⊢
      exact hstring.between hsign hbehind
  | template text rest ihText ihRest =>
      have htext := (ihText hwell.1 hmatch.2.1).keepsCount hmatch.1
      have hbehind := ihRest hwell.2 hmatch.2.2
      rw [own_code] at hbehind ⊢
      exact htext.between (by decide) hbehind

/-- The text of a template leads the lexer from no open brace to none when the braces deep
inside match. -/
theorem Inside.templateText : (t : Inside .text) → t.WellFormed → t.Matches →
    TemplateText 0 t.chars 0
  | .nil, _, _ => .nil
  | .letter (.escaped _) rest, hwell, hmatch =>
    .escape (rest.templateText hwell.2.2 hmatch)
  | .letter (.bare _) rest, hwell, hmatch =>
    .plain (hwell.1.bare_ne (by simp)) (hwell.1.bare_ne (by simp))
      (fun hdollar => hwell.2.1 (congrArg _ hdollar)) (rest.templateText hwell.2.2 hmatch)
  | .interpolation code rest, hwell, hmatch =>
    .enter ((countsAs hwell.1 hmatch.1).keepsCount (bracesMatch_own code) 0 0 _
      (.closing (rest.templateText hwell.2 hmatch.2)))

/-! ## Whole templates -/

theorem StopsAt.template_cases {l : Lexeme} {next : Option Char} (h : StopsAt l next)
    (hkind : l.kind = .template) :
    (∃ body, l.chars = '`' :: (body ++ ['`']) ∧ TemplateText 0 body 0) ∨
      next = none ∧ ∃ d body stub,
        l.chars = '`' :: (body ++ stub) ∧ TemplateText 0 body d ∧ IsStub stub := by
  cases h with
  | template hbody => exact Or.inl ⟨_, rfl, hbody⟩
  | openTemplate hbody hstub => exact Or.inr ⟨rfl, _, _, _, rfl, hbody, hstub⟩
  | single _ =>
      unfold singleKind at hkind
      grind
  | _ => cases hkind

/-- The lexer takes a template for one lexeme when its count is back at none in front of
the last backtick, and also when it reads on from there and the text is at its end. -/
theorem Template.isWhole_iff_templateText {t : Template} {rest : List Char} :
    t.IsWhole rest ↔ TemplateText 0 t.inside.chars 0 ∨
      rest = [] ∧ ∃ d, TemplateText 0 (t.inside.chars ++ ['`']) d := by
  have hsplit : t.inside.chars ++ '`' :: rest = t.inside.chars ++ ['`'] ++ rest := by simp
  constructor
  · intro hwhole
    have hstop := stopsAt_nextLexeme '`' (t.inside.chars ++ '`' :: rest)
    rw [hwhole] at hstop
    rcases hstop.template_cases rfl with
      ⟨body, hchars, hbody⟩ | ⟨hend, d, body, stub, hchars, hbody, hstub⟩
    · rw [List.append_cancel_right (List.cons.inj hchars).2]
      exact Or.inl hbody
    · have htext := (List.cons.inj hchars).2
      refine Or.inr ⟨List.head?_eq_none_iff.mp hend, d, ?_⟩
      rcases hstub with rfl | rfl
      · rwa [htext, List.append_nil]
      · simp at htext
  · rintro (htext | ⟨rfl, d, htext⟩)
    · rw [IsWhole, hsplit]
      exact nextLexeme_eq_of_stopsAt (.template htext) rfl
    · rw [IsWhole, hsplit]
      refine nextLexeme_eq_of_stopsAt ?_ rfl
      simpa [Template.chars] using StopsAt.openTemplate htext (Or.inl rfl)

theorem append_inj_of_size {cs ds es fs : List Char} (h : cs ++ ds = es ++ fs)
    (hsize : size cs = size es) : cs = es ∧ ds = fs := by
  have hfront : cs = es := by rw [← before_size cs ds, h, hsize, before_size]
  subst hfront
  exact ⟨rfl, List.append_cancel_left h⟩

/-- The walk over bytes ends just behind a template when the lexer takes it for one
lexeme. -/
theorem Template.templateEnd_eq_iff {t : Template} {front rest : List Char} :
    Octets.templateEnd (octets (front ++ t.chars ++ rest)) 0 (size front + 1) =
      .ok (size (front ++ t.chars)) ↔ t.IsWhole rest := by
  have htext : front ++ t.chars ++ rest =
      front ++ ['`'] ++ (t.inside.chars ++ '`' :: rest) := by simp [Template.chars]
  have hbehind : front ++ t.chars = front ++ ['`'] ++ (t.inside.chars ++ ['`']) := by
    simp [Template.chars]
  have hread := templateRest_append 0 (t.inside.chars ++ '`' :: rest)
  rw [← Octets.size_concat_ascii front (c := '`') (by decide), Octets.templateEnd_eq htext,
    hbehind, size_append (front ++ ['`']), IsWhole, nextLexeme_tick]
  generalize templateRest 0 (t.inside.chars ++ '`' :: rest) = read at hread ⊢
  constructor
  · intro hend
    have hsize := Nat.add_left_cancel (Except.ok.inj hend)
    rw [← List.singleton_append, ← List.append_assoc] at hread
    obtain ⟨hbody, hrest⟩ := append_inj_of_size hread hsize
    rw [hbody, hrest, Template.chars]
  · intro hwhole
    obtain ⟨hlexeme, -⟩ := Prod.mk.inj hwhole
    have hbody := (List.cons.inj (Lexeme.mk.inj hlexeme).2).2
    rw [hbody]

/-- Whether a template is skipped whole is a matter of the braces in it, and if these match
deep inside it always is. -/
theorem Template.isWhole_iff (t : Template) (rest : List Char) :
    (t.IsWhole rest ↔ TemplateText 0 t.inside.chars 0 ∨
      rest = [] ∧ ∃ d, TemplateText 0 (t.inside.chars ++ ['`']) d) ∧
    (∀ front, Octets.templateEnd (octets (front ++ t.chars ++ rest)) 0 (size front + 1) =
      .ok (size (front ++ t.chars)) ↔ t.IsWhole rest) ∧
    (t.inside.Matches → t.IsWhole rest) :=
  ⟨isWhole_iff_templateText, fun _ => templateEnd_eq_iff, fun hmatch =>
    isWhole_iff_templateText.mpr (Or.inl (t.inside.templateText t.wellFormed hmatch))⟩

/-- The template that a call makes in an interpolation.  The first argument is an object
with a string of two braces in it, the other a template again. -/
def callTemplate : Template where
  inside :=
    .interpolation
      (.plain (.bare 'f') <| .plain (.bare '(') <|
        .braces (.plain (.bare 'a') <| .plain (.bare ':') <|
          .quoted '"' [.bare '{', .escaped '"', .bare '}'] .nil) <|
        .plain (.bare ',') <|
        .template (.letter (.bare 'x') <| .interpolation (.plain (.bare 'y') .nil) .nil) <|
        .plain (.bare ')') .nil)
      .nil
  wellFormed := by simp [Inside.WellFormed, Letter.Avoids]

theorem Template.isWhole_iff_call :
    callTemplate.inside.Matches ∧ callTemplate.IsWhole ['\n'] ∧
      Octets.templateEnd (octets ([' '] ++ callTemplate.chars ++ ['\n'])) 0 2 =
        .ok (size ([' '] ++ callTemplate.chars)) := by
  have hmatch : callTemplate.inside.Matches := by
    simp [callTemplate, Inside.Matches, Inside.own, BracesMatch, heightAfter,
      Letter.height?]
  obtain ⟨-, hbytes, hwhole⟩ := isWhole_iff callTemplate ['\n']
  exact ⟨hmatch, hwhole hmatch, (hbytes [' ']).mpr (hwhole hmatch)⟩

/-- A template with an opening brace in a string and no closing one. -/
def strayTemplate : Template where
  inside := .interpolation (.quoted '"' [.bare '{'] .nil) .nil
  wellFormed := by simp [Inside.WellFormed, Letter.Avoids]

/-- One brace without a partner hides the last backtick of a template. -/
theorem strayTemplate_not_isWhole :
    strayTemplate.chars = ['`', '$', '{', '"', '{', '"', '}', '`'] ∧
      ¬strayTemplate.IsWhole ['\n'] ∧
      ¬ ∀ (t : Template) (rest : List Char), t.IsWhole rest := by
  have hread : ¬strayTemplate.IsWhole ['\n'] := by decide
  exact ⟨by decide, hread, fun hall => hread (hall _ _)⟩

end StylePrune.Literal
