import StylePrune.Proofs.Literal.Body

/-!
# Brackets around the boundaries of entries

The reader of a literal counts braces and no other brackets.  Where an entry begins and
where it ends, no inner brace is open; but round, square and angle brackets may be, and
are exactly if they are open at the comma, or at the end of the literal, that bounds the
entry's piece.  A type such as `Pick<A, B>` behind a value is torn apart at its comma.
-/

namespace StylePrune.Literal

/-! ## Nesting -/

inductive Bracket where
  | round
  | square
  | curly
  | angle
deriving DecidableEq, Repr

/-- The bracket that a lexeme opens.  Whether `<` is one depends on what precedes it. -/
def Lexeme.opens? (angled : Bool) (l : Lexeme) : Option Bracket :=
  match l.kind, l.chars with
  | .opening, _ => some .curly
  | .other, ['('] => some .round
  | .other, ['['] => some .square
  | .other, ['<'] => if angled then some .angle else none
  | _, _ => none

/-- The bracket that a lexeme closes. -/
def Lexeme.closes? (angled : Bool) (l : Lexeme) : Option Bracket :=
  match l.kind, l.chars with
  | .closing, _ => some .curly
  | .other, [')'] => some .round
  | .other, [']'] => some .square
  | .other, ['>'] => if angled then some .angle else none
  | _, _ => none

/-- The brackets open behind a lexeme, the innermost first.  Only the innermost can be
closed. -/
def Lexeme.nest? (angled : Bool) (l : Lexeme) (opened : List Bracket) :
    Option (List Bracket) :=
  match l.opens? angled, l.closes? angled with
  | some b, _ => some (b :: opened)
  | none, some b => if opened.head? = some b then some opened.tail else none
  | none, none => some opened

/-- The brackets open behind more lexemes.  Of the angles those are brackets of which
`angles` says so, by the lexemes in front. -/
def nestAfter (angles : List Lexeme → Bool) :
    List Lexeme → List Bracket → List Lexeme → Option (List Bracket)
  | _, opened, [] => some opened
  | front, opened, l :: ls =>
    (l.nest? (angles front) opened).bind fun next => nestAfter angles (front ++ [l]) next ls

/-- The brackets open behind lexemes of a body. -/
def openBehind (angles : List Lexeme → Bool) (ls : List Lexeme) : Option (List Bracket) :=
  nestAfter angles [] [] ls

/-- The lexemes that end in front of an offset. -/
def wholeBefore : Nat → List Lexeme → List Lexeme
  | _, [] => []
  | n, l :: ls =>
    if Text.size l.chars ≤ n then l :: wholeBefore (n - Text.size l.chars) ls else []

/-- The brackets of the first literal's body that are open at an offset of the text. -/
def openAt (angles : List Lexeme → Bool) (marker text : List Char) (offset : Nat) :
    Option (List Bracket) :=
  match Text.splitFirst marker text with
  | some (front, _) =>
    openBehind angles
      (wholeBefore (offset - Text.size (front ++ marker)) (bodyOf marker text))
  | none => none

/-- Every bracket of the first literal's body is closed, and by its own kind. -/
def Balanced (angles : List Lexeme → Bool) (marker text : List Char) : Prop :=
  openBehind angles (bodyOf marker text) = some []

section Nesting

variable {angles : List Lexeme → Bool}

theorem nestAfter_append (front : List Lexeme) (opened : List Bracket)
    (ls ms : List Lexeme) :
    nestAfter angles front opened (ls ++ ms) =
      (nestAfter angles front opened ls).bind fun next =>
        nestAfter angles (front ++ ls) next ms := by
  induction ls generalizing front opened with
  | nil => simp [nestAfter]
  | cons l ls ih =>
      simp only [List.cons_append, nestAfter, Option.bind_assoc, ih, List.append_assoc,
        List.nil_append]

theorem openBehind_append (ls ms : List Lexeme) :
    openBehind angles (ls ++ ms) =
      (openBehind angles ls).bind fun next => nestAfter angles ls next ms :=
  nestAfter_append [] [] ls ms

/-- A lexeme that is no bracket. -/
def Lexeme.IsNeutral (l : Lexeme) : Prop :=
  ∀ angled, l.opens? angled = none ∧ l.closes? angled = none

theorem Lexeme.isNeutral_of_isGap {l : Lexeme} (h : l.isGap = true) : l.IsNeutral := by
  simp only [Lexeme.isGap, Bool.or_eq_true, decide_eq_true_eq] at h
  intro angled
  rcases h with h | h <;> simp [Lexeme.opens?, Lexeme.closes?, h]

/-- A lexeme with white space in it is no bracket. -/
theorem StopsAt.isNeutral {l : Lexeme} {next : Option Char} (h : StopsAt l next) {c : Char}
    (hc : c ∈ l.chars) (hblank : Text.isAsciiBlank c = true) : l.IsNeutral := by
  intro angled
  cases h with
  | @single d _ _ =>
      obtain rfl := List.mem_singleton.mp hc
      simp [Lexeme.opens?, Lexeme.closes?, singleKind_of_isAsciiBlank hblank]
  | _ => exact ⟨rfl, rfl⟩

theorem nestAfter_neutral {ls : List Lexeme} (h : ∀ l ∈ ls, l.IsNeutral)
    (front : List Lexeme) (opened : List Bracket) :
    nestAfter angles front opened ls = some opened := by
  induction ls generalizing front with
  | nil => rfl
  | cons l ls ih =>
      obtain ⟨hopens, hcloses⟩ := h l (by simp) (angles front)
      rw [nestAfter, Lexeme.nest?, hopens, hcloses, Option.bind_some]
      exact ih (fun k hk => h k (by simp [hk])) _

/-! ## Curly brackets and depth -/

theorem Lexeme.opens?_eq_curly_iff {l : Lexeme} {angled : Bool} :
    l.opens? angled = some .curly ↔ l.kind = .opening := by
  unfold Lexeme.opens?
  split <;> simp_all

theorem Lexeme.closes?_eq_curly_iff {l : Lexeme} {angled : Bool} :
    l.closes? angled = some .curly ↔ l.kind = .closing := by
  unfold Lexeme.closes?
  split <;> simp_all

theorem Lexeme.kind_of_opens? {l : Lexeme} {angled : Bool} {b : Bracket}
    (h : l.opens? angled = some b) (hb : b ≠ .curly) : l.kind = .other := by
  unfold Lexeme.opens? at h
  split at h <;> simp_all

theorem Lexeme.kind_of_closes? {l : Lexeme} {angled : Bool} {b : Bracket}
    (h : l.closes? angled = some b) (hb : b ≠ .curly) : l.kind = .other := by
  unfold Lexeme.closes? at h
  split at h <;> simp_all

/-- The open curly brackets are the open braces. -/
theorem Lexeme.count_nest? {l : Lexeme} {angled : Bool} {opened next : List Bracket}
    {d e : Nat} (h : l.nest? angled opened = some next) (hdepth : l.depth? d = some e)
    (hcount : opened.count .curly = d) : next.count .curly = e := by
  unfold Lexeme.nest? at h
  split at h
  · rename_i b hopens
    obtain rfl := Option.some.inj h
    by_cases hb : b = .curly
    · rw [hb, Lexeme.opens?_eq_curly_iff] at hopens
      simp_all [Lexeme.depth?]
    · have hkind := Lexeme.kind_of_opens? hopens hb
      simp_all [Lexeme.depth?]
  · rename_i b hopens hcloses
    split at h
    · rename_i hhead
      obtain rfl := Option.some.inj h
      obtain ⟨others, rfl⟩ := List.head?_eq_some_iff.mp hhead
      by_cases hb : b = .curly
      · rw [hb, Lexeme.closes?_eq_curly_iff] at hcloses
        cases d with
        | zero => simp_all [Lexeme.depth?]
        | succ d => simp_all [Lexeme.depth?]
      · have hkind := Lexeme.kind_of_closes? hcloses hb
        simp_all [Lexeme.depth?]
    · cases h
  · rename_i hopens hcloses
    obtain rfl := Option.some.inj h
    have hopening : l.kind ≠ .opening := by
      intro hkind
      rw [Lexeme.opens?_eq_curly_iff.mpr hkind] at hopens
      cases hopens
    have hclosing : l.kind ≠ .closing := by
      intro hkind
      rw [Lexeme.closes?_eq_curly_iff.mpr hkind] at hcloses
      cases hcloses
    have hsame : e = d := by
      cases hkind : l.kind <;> cases d <;> simp_all [Lexeme.depth?]
    rw [hcount, hsame]

theorem count_nestAfter {ls front : List Lexeme} {opened next : List Bracket} {d e : Nat}
    (h : nestAfter angles front opened ls = some next) (hdepth : depthAfter d ls = some e)
    (hcount : opened.count .curly = d) : next.count .curly = e := by
  induction ls generalizing front opened d with
  | nil =>
      obtain rfl := Option.some.inj h
      exact hcount.trans (Option.some.inj hdepth)
  | cons l ls ih =>
      rw [nestAfter] at h
      rw [depthAfter_cons] at hdepth
      obtain ⟨middle, hl, hls⟩ := Option.bind_eq_some_iff.mp h
      obtain ⟨f, hf, hrest⟩ := Option.bind_eq_some_iff.mp hdepth
      exact ih hls hrest (l.count_nest? hl hf hcount)

/-- Behind the commas of a body no brace is open. -/
theorem count_nestAfter_joined {before : List (List Lexeme)} {front : List Lexeme}
    {opened next : List Bracket} (hdepth : ∀ p ∈ before, depthAfter 0 p = some 0)
    (h : nestAfter angles front opened (joined before) = some next)
    (hcount : opened.count .curly = 0) : next.count .curly = 0 := by
  induction before generalizing front opened with
  | nil =>
      obtain rfl := Option.some.inj h
      exact hcount
  | cons p before ih =>
      have hjoined : joined (p :: before) = p ++ separator :: joined before := by
        simp [joined]
      rw [hjoined, nestAfter_append] at h
      obtain ⟨middle, hp, hrest⟩ := Option.bind_eq_some_iff.mp h
      exact ih (fun q hq => hdepth q (List.mem_cons_of_mem p hq)) hrest
        (count_nestAfter hp (hdepth p List.mem_cons_self) hcount)

theorem openBehind_neutral_append {ls : List Lexeme} (h : ∀ l ∈ ls, l.IsNeutral)
    (front : List Lexeme) : openBehind angles (front ++ ls) = openBehind angles front := by
  rw [openBehind_append]
  cases hfront : openBehind angles front with
  | none => rfl
  | some opened => exact nestAfter_neutral h front opened

theorem exists_openBehind {ls ms : List Lexeme} {opened : List Bracket}
    (h : openBehind angles (ls ++ ms) = some opened) :
    ∃ next, openBehind angles ls = some next := by
  rw [openBehind_append] at h
  obtain ⟨next, hnext, -⟩ := Option.bind_eq_some_iff.mp h
  exact ⟨next, hnext⟩

end Nesting

/-! ## Lexemes in front of an offset -/

theorem wholeBefore_append (ls ms : List Lexeme) (n : Nat) :
    wholeBefore (Text.size (flatten ls) + n) (ls ++ ms) = ls ++ wholeBefore n ms := by
  induction ls with
  | nil => simp
  | cons l ls ih =>
      have hleft : Text.size (flatten (l :: ls)) + n - Text.size l.chars =
          Text.size (flatten ls) + n := by
        rw [flatten_cons, Text.size_append]
        omega
      have hle : Text.size l.chars ≤ Text.size (flatten (l :: ls)) + n := by
        rw [flatten_cons, Text.size_append]
        omega
      rw [List.cons_append, wholeBefore, if_pos hle, hleft, ih, List.cons_append]

theorem size_pos {c : Char} {cs : List Char} (h : c ∈ cs) : 0 < Text.size cs := by
  cases cs with
  | nil => cases h
  | cons d cs =>
      have hpos := d.utf8Size_pos
      rw [Text.size_cons]
      omega

theorem wholeBefore_zero {ls : List Lexeme} (h : ∀ l ∈ ls, ∃ next, StopsAt l next) :
    wholeBefore 0 ls = [] := by
  cases ls with
  | nil => rfl
  | cons l ls =>
      obtain ⟨next, hstop⟩ := h l List.mem_cons_self
      obtain ⟨c, cs, hchars⟩ := hstop.exists_cons
      have hpos : 0 < Text.size l.chars :=
        size_pos (by rw [hchars]; exact List.mem_cons_self)
      rw [wholeBefore, if_neg (by omega)]

/-- Of lexemes that end with white space, only such stand behind the white space's
beginning as are no brackets. -/
theorem exists_wholeBefore {ls more : List Lexeme} {kept blanks : List Char}
    (hproper : ∀ l ∈ ls, ∃ next, StopsAt l next) (hmore : wholeBefore 0 more = [])
    (h : flatten ls = kept ++ blanks) (hblanks : ∀ c ∈ blanks, Text.isAsciiBlank c = true) :
    ∃ whole others, ls = whole ++ others ∧
      wholeBefore (Text.size kept) (ls ++ more) = whole ∧
      ∀ l ∈ others, l.IsNeutral := by
  induction ls generalizing kept with
  | nil =>
      obtain ⟨rfl, rfl⟩ : kept = [] ∧ blanks = [] := by simpa using h.symm
      exact ⟨[], [], rfl, hmore, by simp⟩
  | cons l ls ih =>
      have hrest : ∀ k ∈ ls, ∃ next, StopsAt k next :=
        fun k hk => hproper k (List.mem_cons_of_mem l hk)
      obtain ⟨next, hstop⟩ := hproper l List.mem_cons_self
      rw [flatten_cons] at h
      by_cases hwhole : ∃ kept', kept = l.chars ++ kept'
      · obtain ⟨kept', rfl⟩ := hwhole
        rw [List.append_assoc] at h
        obtain ⟨whole, others, rfl, hbefore, hothers⟩ :=
          ih hrest (List.append_cancel_left h)
        refine ⟨l :: whole, others, rfl, ?_, hothers⟩
        have happend := wholeBefore_append [l] (whole ++ others ++ more) (Text.size kept')
        rw [hbefore] at happend
        simpa using happend
      · -- the lexeme reaches into the white space, and all behind it is white space
        rcases List.append_eq_append_iff.mp h with ⟨mid, hkept, -⟩ | ⟨mid, hchars, rfl⟩
        · exact (hwhole ⟨mid, hkept⟩).elim
        · obtain ⟨c, hc⟩ : ∃ c, c ∈ mid := by
            refine List.exists_mem_of_ne_nil mid ?_
            rintro rfl
            exact hwhole ⟨[], by simpa using hchars.symm⟩
          have hpos : 0 < Text.size mid := size_pos hc
          refine ⟨[], l :: ls, rfl, ?_, ?_⟩
          · rw [List.cons_append, wholeBefore, if_neg]
            rw [hchars, Text.size_append]
            omega
          · intro k hk
            rcases List.mem_cons.mp hk with rfl | hk
            · exact hstop.isNeutral (by rw [hchars]; simp [hc]) (hblanks c (by simp [hc]))
            · obtain ⟨next', hstop'⟩ := hrest k hk
              obtain ⟨d, ds, hd⟩ := hstop'.exists_cons
              refine hstop'.isNeutral (by rw [hd]; exact List.mem_cons_self) (hblanks d ?_)
              refine List.mem_append_right _ (List.mem_flatMap.mpr ⟨k, hk, ?_⟩)
              rw [hd]
              exact List.mem_cons_self

/-! ## Boundaries -/

section Boundaries

variable {angles : List Lexeme → Bool} {marker text front : List Char}
  {body rest p : List Lexeme}
  {before after : List (List Lexeme)} {m : Member}

theorem LaidOut.openAt_eq {ps : List (List Lexeme)}
    (h : LaidOut marker text front body ps rest) (n : Nat) :
    openAt angles marker text (Text.size (front ++ marker) + n) =
      openBehind angles (wholeBefore n body) := by
  have hsplit := Text.splitFirst_of_firstAt h.first
  rw [← h.text_eq] at hsplit
  simp only [openAt, hsplit, h.bodyOf_eq, Nat.add_sub_cancel_left]

/-- Where an entry begins, the brackets are open that are open behind the comma in front
of it. -/
theorem LaidOut.openAt_start
    (h : LaidOut marker text front body (before ++ p :: after) rest)
    (hm : member? p = some m) (ended : Bool) :
    openAt angles marker text (m.span Lexeme.name (Text.size (front ++ marker) +
      Text.size (flatten (joined before))) ended).start =
        openBehind angles (joined before) := by
  obtain ⟨hp, hlead⟩ := member?_parts hm
  have hbody : body = joined before ++ m.lead ++ (m.value ++ m.trail ++ led after) := by
    rw [h.layout.body_eq, hp]
    simp
  have hproper : ∀ l ∈ m.value ++ m.trail ++ led after, ∃ next, StopsAt l next :=
    fun l hl => h.proper (by rw [hbody]; exact List.mem_append_right _ hl)
  have hwhole := wholeBefore_append (joined before ++ m.lead)
    (m.value ++ m.trail ++ led after) 0
  rw [wholeBefore_zero hproper, ← hbody, List.append_nil, Nat.add_zero] at hwhole
  rw [Member.span, Nat.add_assoc, h.openAt_eq, ← Text.size_append, ← flatten_append, hwhole]
  exact openBehind_neutral_append (fun l hl => Lexeme.isNeutral_of_isGap (hlead l hl)) _

/-- Where an entry ends, the brackets are open that are open in front of the comma behind
it. -/
theorem LaidOut.openAt_entryEnd
    (h : LaidOut marker text front body (before ++ p :: after) rest)
    (hm : member? p = some m) :
    openAt angles marker text (m.span Lexeme.name (Text.size (front ++ marker) +
      Text.size (flatten (joined before))) true).entryEnd =
        openBehind angles (joined before ++ p) := by
  obtain ⟨hp, -⟩ := member?_parts hm
  obtain ⟨blanks, htrail, hblanks⟩ :=
    Text.exists_dropEndWhile_append Text.isAsciiBlank (flatten m.trail)
  have hbody : body = joined before ++ m.lead ++ m.value ++ (m.trail ++ led after) := by
    rw [h.layout.body_eq, hp]
    simp
  have hproper : ∀ l ∈ m.trail ++ led after, ∃ next, StopsAt l next :=
    fun l hl => h.proper (by rw [hbody]; exact List.mem_append_right _ hl)
  obtain ⟨whole, others, hsplit, hwhole, hothers⟩ := exists_wholeBefore
    (fun l hl => hproper l (List.mem_append_left _ hl))
    (wholeBefore_zero fun l hl => hproper l (List.mem_append_right _ hl)) htrail hblanks
  have hfront := wholeBefore_append (joined before ++ m.lead ++ m.value)
    (m.trail ++ led after)
    (Text.size (Text.dropEndWhile Text.isAsciiBlank (flatten m.trail)))
  rw [hwhole, ← hbody] at hfront
  have hoffset : (m.span Lexeme.name (Text.size (front ++ marker) +
      Text.size (flatten (joined before))) true).entryEnd = Text.size (front ++ marker) +
        (Text.size (flatten (joined before ++ m.lead ++ m.value)) +
          Text.size (Text.dropEndWhile Text.isAsciiBlank (flatten m.trail))) := by
    simp only [Member.span, if_true, flatten_append, Text.size_append]
    omega
  have hpiece : joined before ++ p =
      joined before ++ m.lead ++ m.value ++ whole ++ others := by
    rw [hp, hsplit]
    simp
  rw [hoffset, h.openAt_eq, hfront, hpiece, openBehind_neutral_append hothers]

/-- Of the brackets open at the ends of a piece none is a brace. -/
theorem LaidOut.exists_open_piece
    (h : LaidOut marker text front body (before ++ p :: after) rest) (hclosed : rest ≠ [])
    (hbalanced : Balanced angles marker text) :
    (∃ opened, openBehind angles (joined before) = some opened ∧ .curly ∉ opened) ∧
      ∃ opened, openBehind angles (joined before ++ p) = some opened ∧ .curly ∉ opened := by
  have hbody := h.layout.body_eq
  rw [Balanced, h.bodyOf_eq, hbody] at hbalanced
  have hdepth := h.layout.depthAfter_eq hclosed
  obtain ⟨ended, hended⟩ := exists_openBehind hbalanced
  obtain ⟨opened, hopened⟩ := exists_openBehind hended
  have hcount : opened.count .curly = 0 :=
    count_nestAfter_joined (fun q hq => hdepth q (List.mem_append_left _ hq)) hopened rfl
  refine ⟨⟨opened, hopened, List.count_eq_zero.mp hcount⟩, ended, hended, ?_⟩
  rw [openBehind_append, hopened, Option.bind_some] at hended
  exact List.count_eq_zero.mp (count_nestAfter hended (hdepth p (by simp)) hcount)

end Boundaries

/-- In a closed literal whose brackets are balanced, no inner brace is open where an
entry begins or ends, and no bracket at all if and only if none is open at the ends of
the pieces that are members.  Of the angles any may be brackets. -/
theorem boundaries_outside_iff {marker text : List Char} {literal : StyleLiteral}
    (hfind : find? marker text = some literal) (hclosed : literal.terminated = true)
    {angles : List Lexeme → Bool} (hbalanced : Balanced angles marker text) :
    (∀ span ∈ literal.keys,
        (∃ opened, openAt angles marker text span.start = some opened ∧ .curly ∉ opened) ∧
          ∃ opened, openAt angles marker text span.entryEnd = some opened ∧
            .curly ∉ opened) ∧
      ((∀ span ∈ literal.keys, openAt angles marker text span.start = some [] ∧
          openAt angles marker text span.entryEnd = some []) ↔
        ∀ before p after, piecesOf marker text = before ++ p :: after →
          (member? p).isSome = true → openBehind angles (joined before) = some [] ∧
            openBehind angles (joined before ++ p) = some []) := by
  obtain ⟨front, body, ps, rest, hlaid, rfl⟩ := find?_eq_some_iff.mp hfind
  have hrest : rest ≠ [] := by
    rintro rfl
    cases hclosed
  have hkeys : ∀ span, span ∈ (literalOf Lexeme.name front marker body ps rest).keys ↔
      ∃ before p after m, ps = before ++ p :: after ∧ member? p = some m ∧
        span = m.span Lexeme.name (Text.size (front ++ marker) +
          Text.size (flatten (joined before))) true := by
    intro span
    have hended : (!rest.isEmpty) = true := by simpa using hrest
    rw [literalOf, hended, mem_spans_iff, Text.size_append]
    simp only [Bool.true_or]
  rw [hlaid.piecesOf_eq]
  refine ⟨?_, ?_, ?_⟩
  · intro span hspan
    obtain ⟨before, p, after, m, rfl, hm, rfl⟩ := (hkeys span).mp hspan
    rw [hlaid.openAt_start hm, hlaid.openAt_entryEnd hm]
    exact hlaid.exists_open_piece hrest hbalanced
  · intro houtside before p after hps hp
    obtain ⟨m, hm⟩ := Option.isSome_iff_exists.mp hp
    subst hps
    have hspan := houtside _ ((hkeys _).mpr ⟨before, p, after, m, rfl, hm, rfl⟩)
    rwa [hlaid.openAt_start hm, hlaid.openAt_entryEnd hm] at hspan
  · intro hpieces span hspan
    obtain ⟨before, p, after, m, rfl, hm, rfl⟩ := (hkeys span).mp hspan
    rw [hlaid.openAt_start hm, hlaid.openAt_entryEnd hm]
    exact hpieces before p after rfl (by rw [hm]; rfl)

/-! ## Types behind values -/

/-- Where a reader of types stands. -/
inductive TypeScan where
  | outside
  /-- Behind the closing brace of an object. -/
  | value
  /-- In a type, with `depth` brackets open in it and perhaps behind the first half of an
  arrow. -/
  | type (depth : Nat) (arrow : Bool)
deriving DecidableEq, Repr

/-- A type begins with `as` or `satisfies` behind an object.  It ends with a comma or a
closing bracket outside its own brackets. -/
def TypeScan.step (s : TypeScan) (l : Lexeme) : TypeScan :=
  let next := if l.kind = .closing then .value else .outside
  if l.isGap then s
  else
    match s with
    | .type depth arrow =>
      if l.chars = ['>'] ∧ arrow then .type depth false
      else if (l.opens? true).isSome then .type (depth + 1) false
      else if (l.closes? true).isSome then
        if depth = 0 then next else .type (depth - 1) false
      else if l.kind = .comma ∧ depth = 0 then next
      else .type depth (l.chars = ['='])
    | .value =>
      if l.chars = "as".toList ∨ l.chars = "satisfies".toList then .type 0 false else next
    | .outside => next

/-- Whether an angle behind lexemes is a bracket: it stands in a type and is no arrow's. -/
def inType (front : List Lexeme) : Bool :=
  match front.foldl TypeScan.step .outside with
  | .type _ arrow => !arrow
  | _ => false

instance (angles : List Lexeme → Bool) (marker text : List Char) :
    Decidable (Balanced angles marker text) :=
  inferInstanceAs (Decidable (openBehind angles (bodyOf marker text) = some []))

/-- A call and a type without a comma between brackets. -/
theorem boundaries_outside_iff_call :
    let marker := ['(', '{']
    let text := "({ a: { x: f(1) } as Box<() => A>, b: {} })".toList
    Balanced inType marker text ∧ ∃ literal, find? marker text = some literal ∧
      literal.keys.map KeySpan.entryEnd = [33, 40] ∧
      ∀ span ∈ literal.keys, openAt inType marker text span.start = some [] ∧
        ∃ opened, openAt inType marker text span.entryEnd = some opened ∧
          .curly ∉ opened := by
  intro marker text
  have hread : find? marker text =
      some ⟨0, 43, [⟨"a", 3, 17, 33⟩, ⟨"b", 35, 40, 40⟩], true⟩ := by decide +kernel
  have hbalanced : Balanced inType marker text := by decide +kernel
  refine ⟨hbalanced, _, hread, rfl, ?_⟩
  intro span hspan
  refine ⟨?_, ((boundaries_outside_iff hread rfl hbalanced).1 span hspan).2⟩
  revert span
  decide +kernel

/-- The comma of `Pick<A, B>` ends the entry in front of it, and a cut leaves the rest of
the type behind. -/
theorem entryEnd_in_angles :
    let marker := ['(', '{']
    let text := "({ a: {} as Pick<A, B>, b: {} })".toList
    find? marker text = some ⟨0, 32, [⟨"a", 3, 8, 18⟩, ⟨"b", 24, 29, 29⟩], true⟩ ∧
      Balanced inType marker text ∧ openAt inType marker text 18 = some [.angle] ∧
      cut? marker text "a" = some "({ B>, b: {} })".toList := by
  decide +kernel

end StylePrune.Literal
