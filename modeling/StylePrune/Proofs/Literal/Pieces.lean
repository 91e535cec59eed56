import StylePrune.Literal.Basic
import StylePrune.Proofs.Literal.Lexing

/-!
# The pieces of a style literal

A second reading of style literals, in two stages and without a state.  The
lexemes behind the marker are laid out as pieces between the commas that
stand outside all inner braces, up to the brace that closes the literal
(`Layout`).  A piece is a member when its first three lexemes other than white
space and comments are a name, a colon and an opening brace, and that brace
is closed in the piece (`member?`).  `spans` lists the members by offset.

Offsets are sums of sizes, so the lemmas on edited pieces below know nothing
of positions.
-/

namespace StylePrune.Literal

/-! ## Depth -/

/-- White space and comments. -/
def Lexeme.isGap (l : Lexeme) : Bool :=
  l.kind = .blank || l.kind = .comment

/-- What can be the name of a member. -/
def Lexeme.isName (l : Lexeme) : Bool :=
  l.kind = .word || l.kind = .quoted

/-- The open braces behind a lexeme, with `d` open in front of it.  A comma or
a closing brace outside all braces is no part of a piece. -/
def Lexeme.depth? (l : Lexeme) (d : Nat) : Option Nat :=
  match l.kind, d with
  | .opening, d => some (d + 1)
  | .closing, 0 => none
  | .closing, d + 1 => some d
  | .comma, 0 => none
  | _, d => some d

/-- The open braces behind a run of lexemes of one piece. -/
def depthAfter : Nat → List Lexeme → Option Nat
  | d, [] => some d
  | d, l :: ls => (l.depth? d).bind fun e => depthAfter e ls

/-- The comma between two pieces. -/
def separator : Lexeme :=
  ⟨.comma, [',']⟩

theorem size_separator : Text.size separator.chars = 1 := rfl

/-- The lexemes of a literal's body, its pieces, and what follows.  The last piece
is ended by the literal's closing brace, which is the first lexeme of what
follows, or by the end of the text. -/
inductive Layout : List Lexeme → List (List Lexeme) → List Lexeme → Prop where
  | unclosed {p : List Lexeme} {d : Nat} :
      depthAfter 0 p = some d → Layout p [p] []
  | closed {p rest : List Lexeme} {brace : Lexeme} :
      depthAfter 0 p = some 0 → brace.kind = .closing →
      Layout p [p] (brace :: rest)
  | comma {p body rest : List Lexeme} {ps : List (List Lexeme)} :
      depthAfter 0 p = some 0 → Layout body ps rest →
      Layout (p ++ separator :: body) (p :: ps) rest

/-! ## Members -/

/-- Splits behind the brace that closes the one open at depth one. -/
def splitValue : Nat → List Lexeme → Option (List Lexeme × List Lexeme)
  | _, [] => none
  | d, l :: ls =>
    if l.kind = .closing ∧ d = 1 then
      some ([l], ls)
    else
      (l.depth? d).bind fun e =>
        (splitValue e ls).map fun (value, trail) => (l :: value, trail)

/-- The parts of a piece `name: { ... }`. -/
structure Member where
  /-- White space and comments in front of the name. -/
  lead : List Lexeme
  /-- The name. -/
  key : Lexeme
  /-- The name and everything up to the closing brace of the value. -/
  value : List Lexeme
  /-- What stands between the value and the end of the piece. -/
  trail : List Lexeme
deriving DecidableEq, Repr

/-- The lexemes other than white space and comments. -/
def significant (ls : List Lexeme) : List Lexeme :=
  ls.filter (!·.isGap)

/-- The parts of a piece, if it is a member. -/
def member? (p : List Lexeme) : Option Member :=
  match significant p with
  | key :: colon :: brace :: _ =>
    if key.isName ∧ colon.kind = .colon ∧ brace.kind = .opening then
      (splitValue 0 p).map fun (value, trail) =>
        ⟨p.takeWhile Lexeme.isGap, key, value.dropWhile Lexeme.isGap, trail⟩
    else
      none
  | _ => none

/-- The name that a key lexeme stands for. -/
def Lexeme.name (l : Lexeme) : String :=
  if l.kind = .quoted then quotedName l.chars else String.ofList l.chars

/-- The offsets of a member whose piece begins at `pos`.  A piece that is ended
takes what trails the value into the entry, up to the last character that is
not white space. -/
def Member.span (m : Member) (nameOf : Lexeme → String) (pos : Nat) (ended : Bool) :
    KeySpan :=
  let start := pos + Text.size (flatten m.lead)
  let stop := start + Text.size (flatten m.value)
  let trail := Text.dropEndWhile Text.isAsciiBlank (flatten m.trail)
  ⟨nameOf m.key, start, stop, if ended then stop + Text.size trail else stop⟩

/-- The members among the pieces of a literal whose body begins at `pos`. -/
def spans (nameOf : Lexeme → String) (pos : Nat) (closed : Bool) :
    List (List Lexeme) → List KeySpan
  | [] => []
  | p :: ps =>
    ((member? p).map fun m => m.span nameOf pos (closed || !ps.isEmpty)).toList ++
      spans nameOf (pos + Text.size (flatten p) + 1) closed ps

/-- How far a literal reaches behind its body: over the closing brace and what
goes with it. -/
def closingPart : List Lexeme → Nat
  | [] => 0
  | _ :: rest => 1 + closingSize (flatten rest)

/-- The literal that a layout behind a marker stands for, with a name for each
key. -/
def literalOf (nameOf : Lexeme → String) (front marker : List Char) (body : List Lexeme)
    (ps : List (List Lexeme)) (rest : List Lexeme) : StyleLiteral :=
  let pos := Text.size front + Text.size marker
  ⟨Text.size front, pos + Text.size (flatten body) + closingPart rest,
    spans nameOf pos (!rest.isEmpty) ps, !rest.isEmpty⟩

/-! ## Depth of runs -/

@[simp]
theorem depthAfter_nil (d : Nat) : depthAfter d [] = some d := rfl

theorem depthAfter_cons (d : Nat) (l : Lexeme) (ls : List Lexeme) :
    depthAfter d (l :: ls) = (l.depth? d).bind fun e => depthAfter e ls := rfl

theorem depthAfter_append (d : Nat) (ls ms : List Lexeme) :
    depthAfter d (ls ++ ms) = (depthAfter d ls).bind fun e => depthAfter e ms := by
  induction ls generalizing d with
  | nil => rfl
  | cons l ls ih =>
      simp only [List.cons_append, depthAfter_cons, Option.bind_assoc, ih]

theorem Lexeme.depth?_of_isGap {l : Lexeme} (h : l.isGap = true) (d : Nat) :
    l.depth? d = some d := by
  simp only [Lexeme.isGap, Bool.or_eq_true, decide_eq_true_eq] at h
  rcases h with h | h <;> simp [Lexeme.depth?, h]

theorem depthAfter_gap {ls : List Lexeme} (h : ∀ l ∈ ls, l.isGap = true) (d : Nat) :
    depthAfter d ls = some d := by
  induction ls with
  | nil => rfl
  | cons l ls ih =>
      rw [depthAfter_cons, Lexeme.depth?_of_isGap (h l (by simp)), Option.bind_some]
      exact ih fun k hk => h k (by simp [hk])

/-- Outside all braces, exactly commas and closing braces leave a piece. -/
theorem Lexeme.depth?_eq_none_iff {l : Lexeme} {d : Nat} :
    l.depth? d = none ↔ d = 0 ∧ (l.kind = .comma ∨ l.kind = .closing) := by
  cases hkind : l.kind <;> cases d <;> simp [Lexeme.depth?, hkind]

/-- A run of lexemes stays in its piece, or leaves it at a first comma or
closing brace. -/
theorem depthAfter_cases (d : Nat) (ls : List Lexeme) :
    (∃ e, depthAfter d ls = some e) ∨
      ∃ p l rest, ls = p ++ l :: rest ∧ depthAfter d p = some 0 ∧
        (l.kind = .comma ∨ l.kind = .closing) := by
  induction ls generalizing d with
  | nil => exact Or.inl ⟨d, rfl⟩
  | cons l ls ih =>
      cases hl : l.depth? d with
      | none =>
          obtain ⟨rfl, hkind⟩ := Lexeme.depth?_eq_none_iff.mp hl
          exact Or.inr ⟨[], l, ls, rfl, rfl, hkind⟩
      | some e =>
          rcases ih e with ⟨f, hf⟩ | ⟨p, m, rest, rfl, hp, hkind⟩
          · exact Or.inl ⟨f, by simp [depthAfter_cons, hl, hf]⟩
          · exact Or.inr ⟨l :: p, m, rest, rfl, by simp [depthAfter_cons, hl, hp], hkind⟩

/-! ## Layouts exist -/

theorem StopsAt.eq_separator {l : Lexeme} {next : Option Char} (h : StopsAt l next)
    (hkind : l.kind = .comma) : l = separator := by
  have hchars := h.chars_of_punctuation (Or.inl rfl) hkind
  obtain ⟨kind, chars⟩ := l
  simp_all [separator]

theorem exists_layout {ls : List Lexeme} (h : Lexed ls) :
    ∃ body ps rest, ls = body ++ rest ∧ Layout body ps rest := by
  induction hn : ls.length using Nat.strong_induction_on generalizing ls with
  | _ n ih =>
      rcases depthAfter_cases 0 ls with ⟨d, hd⟩ | ⟨p, l, rest, rfl, hp, hcomma | hclosing⟩
      · exact ⟨ls, [ls], [], by simp, .unclosed hd⟩
      · obtain rfl := h.right.1.eq_separator hcomma
        have hshort : rest.length < n := by
          rw [← hn, List.length_append, List.length_cons]
          omega
        obtain ⟨body, ps, tail, rfl, hlayout⟩ := ih rest.length hshort h.right.2 rfl
        exact ⟨p ++ separator :: body, p :: ps, tail, by simp, .comma hp hlayout⟩
      · exact ⟨p, [p], l :: rest, rfl, .closed hp hclosing⟩

theorem Layout.mem_body {body rest p : List Lexeme} {ps : List (List Lexeme)}
    (h : Layout body ps rest) (hp : p ∈ ps) {l : Lexeme} (hl : l ∈ p) : l ∈ body := by
  induction h with
  | unclosed _ =>
      obtain rfl := List.mem_singleton.mp hp
      exact hl
  | closed _ _ =>
      obtain rfl := List.mem_singleton.mp hp
      exact hl
  | comma _ _ ih =>
      rcases List.mem_cons.mp hp with rfl | hp
      · exact List.mem_append_left _ hl
      · exact List.mem_append_right _ (List.mem_cons_of_mem _ (ih hp))

/-! ## Parts of members -/

theorem splitValue_cons_cases {d : Nat} {l : Lexeme} {ls value trail : List Lexeme}
    (h : splitValue d (l :: ls) = some (value, trail)) :
    (l.kind = .closing ∧ d = 1) ∧ value = [l] ∧ trail = ls ∨
      ¬(l.kind = .closing ∧ d = 1) ∧ ∃ e rest, l.depth? d = some e ∧
        splitValue e ls = some (rest, trail) ∧ value = l :: rest := by
  rw [splitValue] at h
  split at h
  · rename_i hclose
    obtain ⟨rfl, rfl⟩ := Prod.mk.inj (Option.some.inj h)
    exact Or.inl ⟨hclose, rfl, rfl⟩
  · rename_i hclose
    obtain ⟨e, he, hrest⟩ := Option.bind_eq_some_iff.mp h
    obtain ⟨⟨rest, trail'⟩, hsplit, hparts⟩ := Option.map_eq_some_iff.mp hrest
    obtain ⟨rfl, rfl⟩ := Prod.mk.inj hparts
    exact Or.inr ⟨hclose, e, rest, he, hsplit, rfl⟩

/-- A value and its trail are the whole; the value leaves no brace open and ends
with the brace that closes it. -/
theorem splitValue_eq_some {d : Nat} {ls value trail : List Lexeme}
    (h : splitValue d ls = some (value, trail)) :
    value ++ trail = ls ∧ depthAfter d value = some 0 ∧
      ∃ front brace, value = front ++ [brace] ∧ brace.kind = .closing := by
  induction ls generalizing d value with
  | nil => simp [splitValue] at h
  | cons l ls ih =>
      rcases splitValue_cons_cases h with
        ⟨⟨hkind, rfl⟩, rfl, rfl⟩ | ⟨-, e, rest, he, hsplit, rfl⟩
      · exact ⟨rfl, by simp [depthAfter_cons, Lexeme.depth?, hkind], [], l, rfl, hkind⟩
      · obtain ⟨happend, hdepth, front, brace, rfl, hbrace⟩ := ih hsplit
        refine ⟨by rw [List.cons_append, happend], ?_, l :: front, brace, rfl, hbrace⟩
        rw [depthAfter_cons, he, Option.bind_some, hdepth]

theorem splitValue_cons {d e : Nat} {l : Lexeme} (hl : l.kind ≠ .closing)
    (hd : l.depth? d = some e) (ls : List Lexeme) :
    splitValue d (l :: ls) =
      (splitValue e ls).map fun (value, trail) => (l :: value, trail) := by
  rw [splitValue, if_neg fun h => hl h.1, hd, Option.bind_some]

theorem Lexeme.kind_ne_of_isGap {l : Lexeme} (h : l.isGap = true) {k : LexemeKind}
    (hblank : k ≠ .blank) (hcomment : k ≠ .comment) : l.kind ≠ k := by
  simp only [Lexeme.isGap, Bool.or_eq_true, decide_eq_true_eq] at h
  rintro rfl
  rcases h with h | h
  · exact hblank h
  · exact hcomment h

theorem splitValue_gap_append {gap : List Lexeme} (h : ∀ l ∈ gap, l.isGap = true)
    (d : Nat) (ls : List Lexeme) :
    splitValue d (gap ++ ls) =
      (splitValue d ls).map fun (value, trail) => (gap ++ value, trail) := by
  induction gap with
  | nil => simp
  | cons l gap ih =>
      have hl : l.isGap = true := h l (by simp)
      rw [List.cons_append,
        splitValue_cons (Lexeme.kind_ne_of_isGap hl (by decide) (by decide))
          (Lexeme.depth?_of_isGap hl d),
        ih fun k hk => h k (by simp [hk]), Option.map_map]
      rfl

theorem significant_gap_append {gap : List Lexeme} (h : ∀ l ∈ gap, l.isGap = true)
    (ls : List Lexeme) : significant (gap ++ ls) = significant ls := by
  rw [significant, List.filter_append, List.filter_eq_nil_iff.mpr, List.nil_append,
    significant]
  intro l hl
  simp [h l hl]

theorem significant_gap {gap : List Lexeme} (h : ∀ l ∈ gap, l.isGap = true) :
    significant gap = [] := by
  simpa [significant] using h

theorem significant_cons {l : Lexeme} (h : l.isGap = false) (ls : List Lexeme) :
    significant (l :: ls) = l :: significant ls :=
  List.filter_cons_of_pos (by simp [h])

/-- White space and comments in front of a piece only lengthen its lead. -/
theorem member?_gap_append {gap : List Lexeme} (h : ∀ l ∈ gap, l.isGap = true)
    (p : List Lexeme) :
    member? (gap ++ p) = (member? p).map fun m => { m with lead := gap ++ m.lead } := by
  unfold member?
  rw [significant_gap_append h]
  split
  · split
    · rw [splitValue_gap_append h, Option.map_map, Option.map_map]
      congr 1
      funext ⟨value, trail⟩
      simp [List.takeWhile_append_of_pos h, List.dropWhile_append_of_pos h]
    · rfl
  · rfl

theorem member?_gap {gap : List Lexeme} (h : ∀ l ∈ gap, l.isGap = true) :
    member? gap = none := by
  have hgap := member?_gap_append h []
  rw [List.append_nil] at hgap
  rw [hgap]
  rfl

/-- A run of lexemes is all white space and comments, or has a first lexeme
that is not. -/
theorem gap_cases (ls : List Lexeme) :
    (∀ l ∈ ls, l.isGap = true) ∨
      ∃ gap l rest, ls = gap ++ l :: rest ∧ (∀ k ∈ gap, k.isGap = true) ∧
        l.isGap = false := by
  induction ls with
  | nil => exact Or.inl (by simp)
  | cons l ls ih =>
      by_cases hl : l.isGap = true
      · rcases ih with hls | ⟨gap, k, rest, rfl, hgap, hk⟩
        · exact Or.inl (by simpa [hl] using hls)
        · exact Or.inr ⟨l :: gap, k, rest, rfl, by simpa [hl] using hgap, hk⟩
      · exact Or.inr ⟨[], l, ls, rfl, by simp, by simpa using hl⟩

theorem Lexeme.isGap_of_isName {l : Lexeme} (h : l.isName = true) : l.isGap = false := by
  simp only [Lexeme.isName, Bool.or_eq_true, decide_eq_true_eq] at h
  rcases h with h | h <;> simp [Lexeme.isGap, h]

theorem Lexeme.depth?_of_isName {l : Lexeme} (h : l.isName = true) (d : Nat) :
    l.kind ≠ .closing ∧ l.depth? d = some d := by
  simp only [Lexeme.isName, Bool.or_eq_true, decide_eq_true_eq] at h
  rcases h with h | h <;> simp [Lexeme.depth?, h]

/-- A piece that begins otherwise than with `name: {` is no member. -/
theorem member?_eq_none {p : List Lexeme}
    (h : ∀ key colon brace rest,
      significant p = key :: colon :: brace :: rest →
        ¬(key.isName = true ∧ colon.kind = .colon ∧ brace.kind = .opening)) :
    member? p = none := by
  unfold member?
  split
  · rename_i key colon brace rest hp
    exact if_neg (h key colon brace rest hp)
  · rfl

/-- A piece that begins with `name: {` is a member as soon as the brace is
closed. -/
theorem member?_head {key colon brace : Lexeme} {gap₁ gap₂ : List Lexeme}
    (hkey : key.isName = true) (hcolon : colon.kind = .colon)
    (hbrace : brace.kind = .opening) (hgap₁ : ∀ l ∈ gap₁, l.isGap = true)
    (hgap₂ : ∀ l ∈ gap₂, l.isGap = true) (rest : List Lexeme) :
    member? (key :: (gap₁ ++ colon :: (gap₂ ++ brace :: rest))) =
      (splitValue 1 rest).map fun (value, trail) =>
        ⟨[], key, key :: (gap₁ ++ colon :: (gap₂ ++ brace :: value)), trail⟩ := by
  obtain ⟨hclosing, hdepth⟩ := Lexeme.depth?_of_isName hkey 0
  have hcolonDepth : colon.depth? 0 = some 0 := by simp [Lexeme.depth?, hcolon]
  have hbraceDepth : brace.depth? 0 = some 1 := by simp [Lexeme.depth?, hbrace]
  have hname := Lexeme.isGap_of_isName hkey
  have hsplit :
      splitValue 0 (key :: (gap₁ ++ colon :: (gap₂ ++ brace :: rest))) =
        (splitValue 1 rest).map fun (value, trail) =>
          (key :: (gap₁ ++ colon :: (gap₂ ++ brace :: value)), trail) := by
    rw [splitValue_cons hclosing hdepth, splitValue_gap_append hgap₁,
      splitValue_cons (by simp [hcolon]) hcolonDepth, splitValue_gap_append hgap₂,
      splitValue_cons (by simp [hbrace]) hbraceDepth]
    simp only [Option.map_map]
    rfl
  have hsignificant :
      significant (key :: (gap₁ ++ colon :: (gap₂ ++ brace :: rest))) =
        key :: colon :: brace :: significant rest := by
    have hc : colon.isGap = false := by simp [Lexeme.isGap, hcolon]
    have hb : brace.isGap = false := by simp [Lexeme.isGap, hbrace]
    rw [significant_cons hname, significant_gap_append hgap₁, significant_cons hc,
      significant_gap_append hgap₂, significant_cons hb]
  simp only [member?, hsignificant, hkey, hcolon, hbrace, and_self, if_true, hsplit,
    Option.map_map]
  congr 1
  funext ⟨value, trail⟩
  simp [hname]

theorem exists_of_significant_eq_cons {ls ms : List Lexeme} {l : Lexeme}
    (h : significant ls = l :: ms) :
    ∃ gap rest, ls = gap ++ l :: rest ∧ (∀ k ∈ gap, k.isGap = true) ∧
      significant rest = ms := by
  obtain ⟨gap, rest, rfl, hgap, -, hrest⟩ := List.filter_eq_cons_iff.mp h
  exact ⟨gap, rest, rfl, by simpa using hgap, hrest⟩

theorem exists_of_member?_eq_some {p : List Lexeme} {m : Member} (h : member? p = some m) :
    ∃ gap₁ gap₂ colon brace value,
      p = m.lead ++ m.value ++ m.trail ∧
      (∀ l ∈ m.lead, l.isGap = true) ∧ m.key.isName = true ∧
      m.value = m.key :: (gap₁ ++ colon :: (gap₂ ++ brace :: value)) ∧
      (∀ l ∈ gap₁, l.isGap = true) ∧ colon.kind = .colon ∧
      (∀ l ∈ gap₂, l.isGap = true) ∧ brace.kind = .opening ∧
      splitValue 1 (value ++ m.trail) = some (value, m.trail) := by
  have hp := h
  rw [member?] at hp
  split at hp
  · rename_i key colon brace rest hsignificant
    split at hp
    · rename_i hkinds
      obtain ⟨hkey, hcolon, hbrace⟩ := hkinds
      obtain ⟨gap₀, p₁, rfl, hgap₀, h₁⟩ := exists_of_significant_eq_cons hsignificant
      obtain ⟨gap₁, p₂, rfl, hgap₁, h₂⟩ := exists_of_significant_eq_cons h₁
      obtain ⟨gap₂, p₃, rfl, hgap₂, -⟩ := exists_of_significant_eq_cons h₂
      rw [member?_gap_append hgap₀, member?_head hkey hcolon hbrace hgap₁ hgap₂,
        Option.map_map] at h
      obtain ⟨⟨value, trail⟩, hsplit, rfl⟩ := Option.map_eq_some_iff.mp h
      obtain ⟨rfl, -⟩ := splitValue_eq_some hsplit
      exact ⟨gap₁, gap₂, colon, brace, value, by simp, by simpa using hgap₀, hkey,
        rfl, hgap₁, hcolon, hgap₂, hbrace, hsplit⟩
    · cases hp
  · cases hp

theorem member?_parts {p : List Lexeme} {m : Member} (h : member? p = some m) :
    p = m.lead ++ m.value ++ m.trail ∧ ∀ l ∈ m.lead, l.isGap = true := by
  obtain ⟨gap₁, gap₂, colon, brace, value, hp, hlead, -⟩ := exists_of_member?_eq_some h
  exact ⟨hp, hlead⟩

theorem mem_of_member?_eq_some {p : List Lexeme} {m : Member} (h : member? p = some m) :
    m.key ∈ p := by
  obtain ⟨gap₁, gap₂, colon, brace, value, hp, -, -, hvalue, -⟩ :=
    exists_of_member?_eq_some h
  rw [hp, hvalue]
  simp

theorem member?_depthAfter {p : List Lexeme} {m : Member} (h : member? p = some m)
    (d : Nat) :
    depthAfter 0 p = some d ↔ depthAfter 0 m.trail = some d := by
  obtain ⟨gap₁, gap₂, colon, brace, value, hp, hlead, hkey, hvalue, hgap₁, hcolon, hgap₂,
    hbrace, hsplit⟩ := exists_of_member?_eq_some h
  obtain ⟨-, hdepth, -⟩ := splitValue_eq_some hsplit
  have hcolonDepth : colon.depth? 0 = some 0 := by simp [Lexeme.depth?, hcolon]
  have hbraceDepth : brace.depth? 0 = some 1 := by simp [Lexeme.depth?, hbrace]
  have hzero : depthAfter 0 m.value = some 0 := by
    simp only [hvalue, depthAfter_cons, depthAfter_append,
      (Lexeme.depth?_of_isName hkey 0).2, depthAfter_gap hgap₁, depthAfter_gap hgap₂,
      hcolonDepth, hbraceDepth, hdepth, Option.bind_some]
  rw [hp, depthAfter_append, depthAfter_append, depthAfter_gap hlead, Option.bind_some,
    hzero, Option.bind_some]

/-- The text of a member begins with its name and ends with a closing brace. -/
theorem member?_flatten_value {p : List Lexeme} {m : Member} (h : member? p = some m)
    (hproper : ∀ l ∈ p, ∃ next, StopsAt l next) :
    ∃ c inner, flatten m.value = c :: (inner ++ ['}']) ∧ Text.isAsciiBlank c = false := by
  obtain ⟨gap₁, gap₂, colon, brace, value, rfl, -, hkey, hvalue, -, -, -, -, hsplit⟩ :=
    exists_of_member?_eq_some h
  obtain ⟨-, -, front, close, rfl, hclose⟩ := splitValue_eq_some hsplit
  obtain ⟨_, hkeyStop⟩ := hproper m.key (by simp [hvalue])
  obtain ⟨_, hcloseStop⟩ := hproper close (by simp [hvalue])
  have hblank : m.key.kind ≠ .blank := by
    intro hkind
    simp [Lexeme.isName, hkind] at hkey
  obtain ⟨c, cs, hc, hcblank⟩ := hkeyStop.exists_cons_of_not_blank hblank
  refine ⟨c, cs ++ flatten (gap₁ ++ colon :: (gap₂ ++ brace :: front)), ?_, hcblank⟩
  simp [hvalue, hc, hcloseStop.chars_of_punctuation (Or.inr rfl) hclose]

end StylePrune.Literal
