import StylePrune.Proofs.Literal.Gap
import StylePrune.Proofs.Literal.Pieces

/-!
# Joining lexemes anew

A cut text is lexed and laid out again from the lexemes of the old one.  White
space between lexemes falls apart into lexemes of one character each, so a cut
through white space is a cut between lexemes.  What stands in front of such a
cut is a comma, white space or a closed comment, and these accept any text
behind them.
-/

namespace StylePrune.Literal

/-! ## Lexemes of one character -/

/-- The lexemes of characters that are lexemes by themselves. -/
def singles (cs : List Char) : List Lexeme :=
  cs.map fun c => ⟨singleKind c, [c]⟩

@[simp]
theorem singles_nil : singles [] = [] := rfl

@[simp]
theorem singles_cons (c : Char) (cs : List Char) :
    singles (c :: cs) = ⟨singleKind c, [c]⟩ :: singles cs := rfl

@[simp]
theorem singles_append (cs ds : List Char) :
    singles (cs ++ ds) = singles cs ++ singles ds :=
  List.map_append

@[simp]
theorem flatten_singles (cs : List Char) : flatten (singles cs) = cs := by
  induction cs with
  | nil => rfl
  | cons c cs ih => simp [ih]

theorem isWordStart_eq_false_of_isBlank {c : Char} (h : Text.isBlank c = true) :
    isWordStart c = false := by
  have hstart : isWordStart c = (decide (65 ≤ c.val ∧ c.val ≤ 90) ||
      (decide (97 ≤ c.val) && decide (c.val ≤ 122)) || c == '_' || c == '$') := rfl
  by_contra hword
  simp only [Bool.not_eq_false, hstart, Bool.or_eq_true, Bool.and_eq_true,
    decide_eq_true_eq, beq_iff_eq, UInt32.le_iff_toNat_le, UInt32.reduceToNat] at hword
  simp only [Text.isBlank, Char.toNat, Bool.or_eq_true, Bool.and_eq_true, decide_eq_true_eq,
    beq_iff_eq] at h
  rcases hword with ((⟨hlow, hhigh⟩ | ⟨hlow, hhigh⟩) | rfl) | rfl
  · omega
  · omega
  · exact absurd h (by decide)
  · exact absurd h (by decide)

theorem ne_of_isBlank {c d : Char} (h : Text.isBlank c = true)
    (hd : Text.isBlank d = false) :
    c ≠ d := by
  rintro rfl
  rw [h] at hd
  cases hd

/-- White space of any script is a lexeme by itself. -/
theorem isSingle_of_isBlank {c : Char} (h : Text.isBlank c = true) (next : Option Char) :
    IsSingle c next :=
  ⟨ne_of_isBlank h (by decide), ne_of_isBlank h (by decide), ne_of_isBlank h (by decide),
    isWordStart_eq_false_of_isBlank h, fun hc => absurd hc (ne_of_isBlank h (by decide))⟩

theorem lexed_singles_append {cs : List Char} (h : ∀ c ∈ cs, Text.isBlank c = true)
    {ls : List Lexeme} (hls : Lexed ls) : Lexed (singles cs ++ ls) := by
  induction cs with
  | nil => exact hls
  | cons c cs ih =>
      refine ⟨.single (isSingle_of_isBlank (h c (by simp)) _), ih fun d hd => h d ?_⟩
      exact List.mem_cons_of_mem c hd

/-- White space in front of a text is made of lexemes of one character. -/
theorem Lexed.split_blank {ls : List Lexeme} (h : Lexed ls) {blanks rest : List Char}
    (hls : flatten ls = blanks ++ rest) (hblanks : ∀ c ∈ blanks, Text.isBlank c = true) :
    ∃ ms, ls = singles blanks ++ ms ∧ flatten ms = rest ∧ Lexed ms := by
  refine ⟨lexemes rest, ?_, flatten_lexemes rest, lexed_lexemes rest⟩
  rw [← lexemes_flatten h, hls, lexemes_eq_iff]
  refine ⟨?_, lexed_singles_append hblanks (lexed_lexemes rest)⟩
  rw [flatten_append, flatten_singles, flatten_lexemes]

theorem stopsAt_separator (next : Option Char) : StopsAt separator next :=
  .single (c := ',') ⟨by decide, by decide, by decide, by decide, by simp⟩

theorem Lexed.split_comma {ls : List Lexeme} (h : Lexed ls) {rest : List Char}
    (hls : flatten ls = ',' :: rest) :
    ∃ ms, ls = separator :: ms ∧ flatten ms = rest ∧ Lexed ms := by
  refine ⟨lexemes rest, ?_, flatten_lexemes rest, lexed_lexemes rest⟩
  rw [← lexemes_flatten h, hls, lexemes_eq_iff]
  refine ⟨by simp [separator, flatten_lexemes], ?_, lexed_lexemes rest⟩
  exact stopsAt_separator _

/-! ## White space at the end of a gap -/

/-- A lexeme of a gap, unless a line feed or nothing follows, accepts any text
behind it, and is one character of white space or a closed comment. -/
theorem StopsAt.of_isGap {l : Lexeme} {c : Char} (h : StopsAt l (some c))
    (hgap : l.isGap = true) (hc : c ≠ '\n') :
    (∀ next, StopsAt l next) ∧
      ((∃ d, l = ⟨singleKind d, [d]⟩) ∨ l.chars.getLast? = some '/') := by
  cases h with
  | lineComment _ hstop => exact (hc (hstop c rfl)).elim
  | @blockComment body _ hbody =>
      refine ⟨fun next => .blockComment hbody, Or.inr ?_⟩
      simp [List.getLast?_cons, List.getLast?_append]
  | @single d _ hsingle =>
      refine ⟨fun next => .single ?_, Or.inl ⟨d, rfl⟩⟩
      obtain ⟨hquote, hdouble, htick, hword, -⟩ := hsingle
      refine ⟨hquote, hdouble, htick, hword, ?_⟩
      rintro rfl
      exact absurd hgap (by decide)
  | _ => exact absurd hgap (by simp [Lexeme.isGap])

/-- White space at the end of a gap can be split off, and what is left of the gap
accepts any text behind it. -/
theorem Lexed.split_gap {gap ls : List Lexeme} {c : Char} (h : Lexed (gap ++ ls))
    (hgap : ∀ l ∈ gap, l.isGap = true) (hc : (flatten ls).head? = some c) (hline : c ≠ '\n')
    {front blanks : List Char} (hfront : flatten gap = front ++ blanks)
    (hblanks : ∀ c ∈ blanks, Text.isBlank c = true ∧ c ≠ '\n') :
    ∃ gap', gap = gap' ++ singles blanks ∧ flatten gap' = front ∧
      ∀ l, gap'.getLast? = some l → ∀ next, StopsAt l next := by
  -- the induction goes backwards, because a comment is told from white space by
  -- what follows it
  induction gap using List.reverseRecOn generalizing ls c blanks with
  | nil =>
      obtain ⟨rfl, rfl⟩ := List.append_eq_nil_iff.mp hfront.symm
      exact ⟨[], rfl, rfl, by simp⟩
  | append_singleton gap l ih =>
      rw [List.append_assoc, List.singleton_append] at h
      have hstop : StopsAt l (some c) := hc ▸ h.right.1
      obtain ⟨haccepts, hl⟩ := hstop.of_isGap (hgap l (by simp)) hline
      rcases List.eq_nil_or_concat blanks with rfl | ⟨blanks, d, rfl⟩
      · refine ⟨gap ++ [l], by simp, by simpa using hfront, fun k hk => ?_⟩
        obtain rfl : l = k := by simpa using hk
        exact haccepts
      · obtain ⟨hd, hdline⟩ := hblanks d (by simp)
        have hsplit : flatten gap ++ l.chars = front ++ blanks ++ [d] := by
          simpa using hfront
        rcases hl with ⟨e, rfl⟩ | hslash
        · obtain ⟨hflat, he⟩ := List.append_inj' hsplit rfl
          obtain rfl : e = d := by simpa using he
          obtain ⟨gap', rfl, hgap', hlast⟩ := ih h
            (fun k hk => hgap k (by simp [hk])) rfl hdline hflat
            (fun k hk => hblanks k (by simp [hk]))
          exact ⟨gap', by simp, hgap', hlast⟩
        · have hend := congrArg List.getLast? hsplit
          simp only [List.getLast?_append, hslash, List.getLast?_singleton, Option.some_or,
            Option.some.injEq] at hend
          exact absurd hend.symm (ne_of_isBlank hd (by decide))

/-! ## Lexemes in front of another text -/

/-- The text behind lexemes may be exchanged if the last of them accepts it. -/
theorem Lexed.exchange {ls ms ns : List Lexeme} (h : Lexed (ls ++ ms)) (hns : Lexed ns)
    (hlast : ∀ l, ls.getLast? = some l → StopsAt l (flatten ns).head?) :
    Lexed (ls ++ ns) := by
  induction ls with
  | nil => exact hns
  | cons l ls ih =>
      cases ls with
      | nil => exact ⟨hlast l rfl, hns⟩
      | cons k ls =>
          refine ⟨?_, ih h.2 fun j hj => hlast j (by simpa using hj)⟩
          obtain ⟨c, cs, hk⟩ := h.2.1.exists_cons
          have hstop : StopsAt l (flatten (k :: (ls ++ ms))).head? := h.1
          change StopsAt l (flatten (k :: (ls ++ ns))).head?
          rw [flatten_cons, hk] at hstop ⊢
          exact hstop

/-! ## Layouts -/

/-- A lexeme that neither opens nor closes anything nor ends a piece. -/
def Lexeme.isFlat (l : Lexeme) : Bool :=
  l.kind ≠ .opening && l.kind ≠ .closing && l.kind ≠ .comma

theorem Lexeme.depth?_of_isFlat {l : Lexeme} (h : l.isFlat = true) (d : Nat) :
    l.depth? d = some d := by
  cases hkind : l.kind <;> simp_all [Lexeme.isFlat, Lexeme.depth?]

theorem Lexeme.isFlat_of_isGap {l : Lexeme} (h : l.isGap = true) : l.isFlat = true := by
  cases hkind : l.kind <;> simp_all [Lexeme.isGap, Lexeme.isFlat]

theorem isFlat_of_mem_singles {cs : List Char} (h : ∀ c ∈ cs, Text.isBlank c = true)
    {l : Lexeme} (hl : l ∈ singles cs) : l.isFlat = true := by
  obtain ⟨c, hc, rfl⟩ := List.mem_map.mp hl
  have hblank := h c hc
  have hopen : c ≠ '{' := ne_of_isBlank hblank (by decide)
  have hclose : c ≠ '}' := ne_of_isBlank hblank (by decide)
  have hcomma : c ≠ ',' := ne_of_isBlank hblank (by decide)
  have hcolon : c ≠ ':' := ne_of_isBlank hblank (by decide)
  by_cases hascii : Text.isAsciiBlank c = true
  · simp [Lexeme.isFlat, singleKind, hopen, hclose, hcomma, hcolon, hascii]
  · simp [Lexeme.isFlat, singleKind, hopen, hclose, hcomma, hcolon, hascii]

theorem isGap_of_mem_singles {cs : List Char} (h : ∀ c ∈ cs, Text.isAsciiBlank c = true)
    {l : Lexeme} (hl : l ∈ singles cs) : l.isGap = true := by
  obtain ⟨c, hc, rfl⟩ := List.mem_map.mp hl
  simp [Lexeme.isGap, singleKind_of_isAsciiBlank (h c hc)]

theorem depthAfter_flat_append {ls : List Lexeme} (h : ∀ l ∈ ls, l.isFlat = true) (d : Nat)
    (ms : List Lexeme) : depthAfter d (ls ++ ms) = depthAfter d ms := by
  induction ls with
  | nil => rfl
  | cons l ls ih =>
      rw [List.cons_append, depthAfter_cons, Lexeme.depth?_of_isFlat (h l (by simp)),
        Option.bind_some]
      exact ih fun k hk => h k (by simp [hk])

theorem Layout.flat_append {b q rest x : List Lexeme} {ps : List (List Lexeme)}
    (h : Layout b (q :: ps) rest) (hx : ∀ l ∈ x, l.isFlat = true) :
    Layout (x ++ b) ((x ++ q) :: ps) rest := by
  cases h with
  | unclosed hd => exact .unclosed (by rwa [depthAfter_flat_append hx])
  | closed hd hbrace => exact .closed (by rwa [depthAfter_flat_append hx]) hbrace
  | comma hd hlayout =>
      rw [← List.append_assoc]
      exact .comma (by rwa [depthAfter_flat_append hx]) hlayout

/-- Flat lexemes in front of a list end before the first lexeme that is not flat. -/
theorem exists_of_append_eq_flat_append {p x rest tail : List Lexeme} {l : Lexeme}
    (h : p ++ l :: tail = x ++ rest) (hl : l.isFlat = false)
    (hx : ∀ k ∈ x, k.isFlat = true) : ∃ q, p = x ++ q ∧ rest = q ++ l :: tail := by
  rcases List.append_eq_append_iff.mp h with ⟨y, rfl, hy⟩ | ⟨y, rfl, rfl⟩
  · cases y with
    | nil => exact ⟨[], by simp, by simpa using hy.symm⟩
    | cons k y =>
        obtain ⟨rfl, -⟩ := List.cons.inj hy
        have hflat := hx l (by simp)
        rw [hl] at hflat
        cases hflat
  · exact ⟨y, rfl, rfl⟩

/-- Flat lexemes at the beginning of a literal belong to its first piece. -/
theorem Layout.split_flat {body p rest x ls : List Lexeme} {ps : List (List Lexeme)}
    (h : Layout body (p :: ps) rest) (hx : ∀ l ∈ x, l.isFlat = true)
    (hls : body ++ rest = x ++ ls) :
    ∃ b q, body = x ++ b ∧ p = x ++ q ∧ ls = b ++ rest ∧ Layout b (q :: ps) rest := by
  cases h with
  | unclosed hd =>
      rw [List.append_nil] at hls
      subst hls
      rw [depthAfter_flat_append hx] at hd
      exact ⟨ls, ls, rfl, rfl, by simp, .unclosed hd⟩
  | closed hd hbrace =>
      obtain ⟨q, rfl, rfl⟩ :=
        exists_of_append_eq_flat_append hls (by simp [Lexeme.isFlat, hbrace]) hx
      rw [depthAfter_flat_append hx] at hd
      exact ⟨q, q, rfl, rfl, rfl, .closed hd hbrace⟩
  | comma hd hlayout =>
      rw [List.append_assoc, List.cons_append] at hls
      obtain ⟨q, rfl, rfl⟩ := exists_of_append_eq_flat_append hls (by decide) hx
      rw [depthAfter_flat_append hx] at hd
      exact ⟨_, q, by simp, rfl, by simp, .comma hd hlayout⟩

theorem Layout.split_separator {body p rest ls : List Lexeme} {ps : List (List Lexeme)}
    (h : Layout body (p :: ps) rest) (hls : body ++ rest = separator :: ls) :
    ∃ b, body = separator :: b ∧ p = [] ∧ ls = b ++ rest ∧ Layout b ps rest := by
  have hpiece : ∀ {d q tail}, depthAfter 0 p = some d → p ++ tail = separator :: q →
      p = [] ∧ tail = separator :: q := by
    intro d q tail hd heq
    cases p with
    | nil => exact ⟨rfl, heq⟩
    | cons l p =>
        obtain ⟨rfl, -⟩ := List.cons.inj heq
        simp [depthAfter_cons, Lexeme.depth?, separator] at hd
  cases h with
  | unclosed hd =>
      obtain ⟨-, hnil⟩ := hpiece hd hls
      cases hnil
  | closed hd hbrace =>
      obtain ⟨rfl, heq⟩ := hpiece hd hls
      obtain ⟨rfl, -⟩ := List.cons.inj heq
      cases hbrace
  | comma hd hlayout =>
      rw [List.append_assoc] at hls
      obtain ⟨rfl, heq⟩ := hpiece hd hls
      exact ⟨_, rfl, rfl, (List.cons.inj heq).2.symm, hlayout⟩

/-- Pieces with their commas. -/
def joined (ps : List (List Lexeme)) : List Lexeme :=
  ps.flatMap fun p => p ++ [separator]

theorem layout_append_iff {before ps : List (List Lexeme)} {body rest : List Lexeme}
    (hps : ps ≠ []) :
    Layout body (before ++ ps) rest ↔
      ∃ b, body = joined before ++ b ∧ (∀ p ∈ before, depthAfter 0 p = some 0) ∧
        Layout b ps rest := by
  induction before generalizing body with
  | nil => simp [joined]
  | cons p before ih =>
      constructor
      · intro h
        have hne : before ++ ps ≠ [] := by simp [hps]
        rw [List.cons_append] at h
        generalize hall : before ++ ps = all at h hne
        cases h with
        | unclosed _ => exact (hne rfl).elim
        | closed _ _ => exact (hne rfl).elim
        | comma hd hlayout =>
            rw [← hall] at hlayout
            obtain ⟨b, rfl, hbefore, hb⟩ := ih.mp hlayout
            refine ⟨b, by simp [joined], ?_, hb⟩
            simpa [hd] using hbefore
      · rintro ⟨b, rfl, hbefore, hlayout⟩
        have hjoin : joined (p :: before) ++ b =
            p ++ separator :: (joined before ++ b) := by
          simp [joined]
        rw [hjoin]
        refine .comma (hbefore p (by simp)) (ih.mpr ⟨b, rfl, ?_, hlayout⟩)
        exact fun q hq => hbefore q (by simp [hq])

end StylePrune.Literal
