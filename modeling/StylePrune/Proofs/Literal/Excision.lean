import StylePrune.Proofs.Literal.Entries
import StylePrune.Proofs.Literal.Hidden
import StylePrune.Proofs.Literal.Reading

/-!
# One cut, piece by piece

Cutting an entry takes one piece out of the layout of a literal.  Where the
comma behind the entry goes with it, the next piece moves up and loses white
space; otherwise what is left of the piece stays behind, and in a closed
literal that is white space and comments only.  `Excision` records both sides
of a cut, the texts and the layouts, and `exists_excision` says that every cut
is one.
-/

namespace StylePrune.Literal

/-! ## The entry of a member -/

/-- The text of an entry as cuts see it: it neither begins with a line feed nor ends
with a carriage return. -/
def Upright (entry : List Char) : Prop :=
  (∃ c, entry.head? = some c ∧ c ≠ '\n') ∧ entry.getLast? ≠ some '\r'

theorem member?_upright {p : List Lexeme} {m : Member} (h : member? p = some m)
    (hproper : ∀ l ∈ p, ∃ next, StopsAt l next) {trail : List Char}
    (htrail : trail.getLast? ≠ some '\r') : Upright (flatten m.value ++ trail) := by
  obtain ⟨c, inner, hvalue, hc⟩ := member?_flatten_value h hproper
  refine ⟨⟨c, by simp [hvalue], ?_⟩, ?_⟩
  · rintro rfl
    exact absurd hc (by decide)
  · cases trail using List.reverseRecOn with
    | nil =>
        rw [List.append_nil, hvalue, ← List.cons_append, List.getLast?_concat]
        decide
    | append_singleton trail c =>
        rw [List.getLast?_concat] at htrail
        rwa [← List.append_assoc, List.getLast?_concat]

/-- `q` is the white space at the end of the piece `p`. -/
def TrailsOff (p q : List Lexeme) : Prop :=
  ∃ blanks, q = singles blanks ∧ (∀ c ∈ blanks, Text.isAsciiBlank c = true) ∧
    (EndsInLine p ↔ ∀ c ∈ blanks, Text.isTab c = true)

theorem TrailsOff.isGap {p q : List Lexeme} (h : TrailsOff p q) :
    ∀ l ∈ q, l.isGap = true := by
  obtain ⟨blanks, rfl, hblanks, -⟩ := h
  exact fun l hl => isGap_of_mem_singles hblanks hl

theorem member?_trailsOff {p : List Lexeme} {m : Member} (h : member? p = some m)
    (hproper : ∀ l ∈ p, ∃ next, StopsAt l next) {blanks : List Char}
    (htrail : flatten m.trail =
      Text.dropEndWhile Text.isAsciiBlank (flatten m.trail) ++ blanks)
    (hblanks : ∀ c ∈ blanks, Text.isAsciiBlank c = true) :
      TrailsOff p (singles blanks) := by
  obtain ⟨hp, -⟩ := member?_parts h
  obtain ⟨c, inner, hvalue, -⟩ := member?_flatten_value h hproper
  refine ⟨blanks, rfl, hblanks, ?_⟩
  have hsplit : flatten p = flatten m.lead ++ flatten m.value ++
      Text.dropEndWhile Text.isAsciiBlank (flatten m.trail) ++ blanks := by
    rw [hp, flatten_append, flatten_append, List.append_assoc _ _ blanks, ← htrail]
  refine endsInLine_iff hsplit hblanks fun d hd => ?_
  rw [List.getLast?_append] at hd
  cases hlast : (Text.dropEndWhile Text.isAsciiBlank (flatten m.trail)).getLast? with
  | some e =>
      obtain rfl : e = d := by simpa [hlast] using hd
      exact Text.getLast?_dropEndWhile_eq_false hlast
  | none =>
      rw [hlast, Option.none_or, hvalue, ← List.cons_append, ← List.append_assoc,
        List.getLast?_concat] at hd
      cases hd
      decide

/-- The entry of a member can be taken out of the lexemes behind its lead, even
where it ends inside a comment. -/
theorem Layout.split_entry {body p rest : List Lexeme} {ps : List (List Lexeme)}
    {m : Member} (h : Layout body (p :: ps) rest) (hlexed : Lexed (body ++ rest))
    (hm : member? p = some m) :
    ∃ ls entry b q,
      body = m.lead ++ ls ∧ flatten ls = entry ++ flatten b ∧ Upright entry ∧
      (∀ nameOf pos, (m.span nameOf pos (!rest.isEmpty || !ps.isEmpty)).entryEnd =
        pos + Text.size (flatten m.lead) + Text.size entry) ∧
      Lexed (b ++ rest) ∧ Layout b (q :: ps) rest ∧
      (rest ≠ [] ∨ ps ≠ [] → TrailsOff p q) := by
  have hproper : ∀ l ∈ p, ∃ next, StopsAt l next :=
    fun l hl => hlexed.proper (List.mem_append_left rest (h.mem_body (by simp) hl))
  obtain ⟨hp, -⟩ := member?_parts hm
  obtain ⟨blanks, htrail, hblanks⟩ :=
    Text.exists_dropEndWhile_append Text.isAsciiBlank (flatten m.trail)
  have hbare : (Text.dropEndWhile Text.isAsciiBlank (flatten m.trail)).getLast? ≠
      some '\r' := by
    intro hreturn
    exact absurd (Text.getLast?_dropEndWhile_eq_false hreturn) (by decide)
  have hupright := member?_upright hm hproper hbare
  have htrailsOff := member?_trailsOff hm hproper htrail hblanks
  have hdepth : depthAfter 0 (singles blanks) = some 0 := depthAfter_gap htrailsOff.isGap 0
  have hblank : ∀ c ∈ blanks, Text.isBlank c = true :=
    fun c hc => isBlank_of_isAsciiBlank (hblanks c hc)
  -- the white space behind the entry is lexed anew, as it may be the end of a comment
  have hflatten : flatten m.value ++ flatten m.trail = flatten m.value ++
      Text.dropEndWhile Text.isAsciiBlank (flatten m.trail) ++
        flatten (singles blanks) := by
    rw [flatten_singles, List.append_assoc, ← htrail]
  cases h with
  | @unclosed _ d hd =>
      rw [member?_depthAfter hm] at hd
      refine ⟨m.value ++ m.trail, flatten m.value, m.trail, m.trail, by simpa using hp,
        by simp, ?_, ?_, ?_, .unclosed hd, by simp⟩
      · have hnil : ([] : List Char).getLast? ≠ some '\r' := by simp
        have hvalue := member?_upright hm hproper hnil
        rwa [List.append_nil] at hvalue
      · simp [Member.span]
      · rw [hp, List.append_assoc] at hlexed
        exact hlexed.right
  | closed hd hbrace =>
      refine ⟨m.value ++ m.trail, _, singles blanks, singles blanks, by simpa using hp,
        by simpa using hflatten, hupright, ?_, lexed_singles_append hblank hlexed.right,
        .closed hdepth hbrace, fun _ => htrailsOff⟩
      simp [Member.span, Nat.add_assoc]
  | @comma _ body _ _ hd hlayout =>
      refine ⟨m.value ++ m.trail ++ separator :: body, _,
        singles blanks ++ separator :: body,
        singles blanks, ?_, ?_, hupright, ?_, ?_, .comma hdepth hlayout,
        fun _ => htrailsOff⟩
      · rw [hp]
        simp
      · rw [flatten_append, flatten_append, hflatten, flatten_append, List.append_assoc]
      · have hps : ps.isEmpty = false := by simp [hlayout.pieces_ne_nil]
        simp [Member.span, hps, Nat.add_assoc]
      · rw [List.append_assoc] at hlexed ⊢
        exact lexed_singles_append hblank hlexed.right

/-! ## The text behind the entry -/

/-- The pieces behind an entry after the cut.  Either the rest of the entry's own
piece stays, or the next piece is left with the gap in front of the entry, and shows
a member that was hidden if the entry's piece uncovers it. -/
inductive Rejoined (piece gap : List Lexeme) (ended : Prop) :
    List (List Lexeme) → List (List Lexeme) → Prop where
  | kept {q : List Lexeme} {after : List (List Lexeme)} :
      (ended → ∀ l ∈ q, l.isGap = true) → (∀ next ∈ after.head?, ¬Uncovers piece next) →
      Rejoined piece gap ended after ((gap ++ q) :: after)
  | merged {blanks : List Char} {q : List Lexeme} {after : List (List Lexeme)} :
      (Uncovers piece (singles blanks ++ q) ↔
        (∃ c ∈ blanks, Text.isAsciiBlank c = false) ∧ (member? q).isSome = true) →
      Rejoined piece gap ended ((singles blanks ++ q) :: after) ((gap ++ q) :: after)

theorem Rejoined.exists_cons {piece gap : List Lexeme} {ended : Prop}
    {after new : List (List Lexeme)} (h : Rejoined piece gap ended after new) :
    ∃ q others, new = (gap ++ q) :: others := by
  cases h with
  | kept _ _ => exact ⟨_, _, rfl⟩
  | merged _ => exact ⟨_, _, rfl⟩

/-- Where the comma stays, it does not stand on the entry's last line. -/
theorem TrailsOff.not_endsInLine {piece q behind rest : List Lexeme}
    {front kept lead trail tail : List Char} (h : TrailsOff piece q)
    (hclose : ClosesGap front (flatten (q ++ separator :: behind ++ rest)) kept
      lead trail tail)
    (htrail : ∀ c ∈ trail, Text.isBlank c = true) : ¬EndsInLine piece := by
  intro hends
  obtain ⟨blanks, rfl, -, htabs⟩ := h
  have hback : flatten (singles blanks ++ separator :: behind ++ rest) =
      blanks ++ ',' :: flatten (behind ++ rest) := by
    simp [separator]
  obtain ⟨others, rfl, -⟩ :=
    hclose.comma_line hback (htabs.mp hends) (firstLine_restOfLine _)
  exact absurd (htrail ',' (by simp)) (by decide)

theorem Layout.drop_separator {body q rest piece gap : List Lexeme}
    {after : List (List Lexeme)} {front kept lead trail tail : List Char}
    (h : Layout body (q :: after) rest) (hlexed : Lexed (body ++ rest))
    (hq : rest ≠ [] ∨ after ≠ [] → TrailsOff piece q) (hgap : ∀ l ∈ gap, l.isGap = true)
    (hclose : ClosesGap front (flatten (body ++ rest)) kept lead trail tail) :
    ∃ b new, flatten (b ++ rest) = tail ∧ Lexed (b ++ rest) ∧
      Layout (gap ++ b) new rest ∧ Rejoined piece gap (rest ≠ []) after new := by
  have hflat : ∀ l ∈ gap, l.isFlat = true := fun l hl => Lexeme.isFlat_of_isGap (hgap l hl)
  have htail := hclose.back_eq
  rcases hclose.trail_separator with hblank | ⟨tabs, blanks, rfl, htabs, hblanks⟩
  · have hcovers : ∀ next ∈ after.head?, ¬Uncovers piece next := by
      rintro next hnext ⟨hends, -⟩
      cases h with
      | unclosed _ => cases hnext
      | closed _ _ => cases hnext
      | comma _ hlayout =>
          exact (hq (Or.inr hlayout.pieces_ne_nil)).not_endsInLine hclose hblank hends
    obtain ⟨ls, hls, hflatten, hlexed⟩ := hlexed.split_blank htail hblank
    obtain ⟨b, q, rfl, rfl, rfl, hlayout⟩ :=
      h.split_flat (fun l hl => isFlat_of_mem_singles hblank hl) hls
    refine ⟨b, _, hflatten, hlexed, hlayout.flat_append hflat,
      .kept (fun he l hl => ?_) hcovers⟩
    exact (hq (Or.inl he)).isGap l (List.mem_append_right _ hl)
  · have hblank : ∀ c ∈ tabs, Text.isBlank c = true :=
      fun c hc => isBlank_of_isTab (htabs c hc)
    rw [List.append_assoc] at htail
    obtain ⟨ls, hls, hflatten, hlexed⟩ := hlexed.split_blank htail hblank
    obtain ⟨b, q, rfl, rfl, rfl, hlayout⟩ :=
      h.split_flat (fun l hl => isFlat_of_mem_singles hblank hl) hls
    obtain ⟨ls, hls, hflatten, hlexed⟩ := hlexed.split_comma hflatten
    obtain ⟨b, rfl, rfl, rfl, hlayout⟩ := hlayout.split_separator hls
    obtain ⟨ls, hls, hflatten', hlexed'⟩ := hlexed.split_blank hflatten hblanks
    cases after with
    | nil => exact (hlayout.pieces_ne_nil rfl).elim
    | cons p after =>
        have hends : EndsInLine piece := by
          obtain ⟨blanks', htabs', -, hends⟩ := hq (Or.inr (by simp))
          rw [List.append_nil] at htabs'
          rw [hends, ← singles_injective htabs']
          exact htabs
        have hback : flatten (singles tabs ++ separator :: b ++ rest) =
            tabs ++ ',' :: flatten (b ++ rest) := by
          simp [separator]
        obtain ⟨blanks', htrail, hline⟩ :=
          hclose.comma_line hback htabs (firstLine_restOfLine _)
        obtain rfl := (List.cons.inj (List.append_cancel_left htrail)).2
        have hlayout₀ := hlayout
        obtain ⟨b, q, rfl, rfl, rfl, hlayout⟩ :=
          hlayout.split_flat (fun l hl => isFlat_of_mem_singles hblanks hl) hls
        have hhides := hlayout₀.hidesMember_singles_iff hlexed
          (firstLine_restOfLine _) hline
        refine ⟨b, _, hflatten', hlexed', hlayout.flat_append hflat, .merged ?_⟩
        rw [Uncovers, hhides, and_iff_right hends]

theorem ClosesGap.not_hidesMember {gap q : List Lexeme}
    {front back inner lead trail rest : List Char} {d : Char}
    (h : ClosesGap front back (inner ++ d :: flatten gap) lead trail (flatten q ++ rest))
    (hd : Text.isBlank d = false) (hgap : ∀ l ∈ gap, l.isGap = true) :
    ¬HidesMember (gap ++ q) := by
  intro hhides
  obtain ⟨hhides, hnewline⟩ := hhides.of_gap_append hgap
  obtain ⟨line, below, -, hline, -, hblank, ⟨c, hc, hascii⟩, -⟩ := hhides.firstLine rest
  rcases h.rest_line hline with hlast | hall | ⟨e, he, hother⟩
  · have hmem : '\n' ∈ d :: flatten gap := by
      cases hend : (d :: flatten gap).getLast? with
      | none => simp at hend
      | some e =>
          obtain rfl := hlast e (by rw [List.getLast?_append, hend, Option.some_or])
          exact List.mem_of_getLast? hend
    rcases List.mem_cons.mp hmem with hd' | hmem
    · rw [← hd'] at hd
      exact absurd hd (by decide)
    · exact hnewline hmem
  · rw [hall c hc] at hascii
    cases hascii
  · rw [hblank e he] at hother
    cases hother

/-! ## The text in front of the entry -/

/-- White space at the end of a text does not reach behind its last other
character. -/
theorem exists_of_append_eq_blank {front back kept lead : List Char} {c : Char}
    (h : front ++ c :: back = kept ++ lead) (hc : Text.isBlank c = false)
    (hlead : ∀ d ∈ lead, Text.isBlank d = true) :
    ∃ mid, kept = front ++ c :: mid ∧ back = mid ++ lead := by
  have hsplit : (front ++ [c]) ++ back = kept ++ lead := by simpa using h
  rcases List.append_eq_append_iff.mp hsplit with ⟨mid, hkept, hback⟩ | ⟨mid, hfront, rfl⟩
  · exact ⟨mid, by simpa using hkept, hback⟩
  · cases mid using List.reverseRecOn with
    | nil => exact ⟨[], by simpa using hfront.symm, rfl⟩
    | append_singleton mid d =>
        rw [← List.append_assoc] at hfront
        obtain ⟨-, hd⟩ := List.append_inj' hfront rfl
        obtain rfl : c = d := by simpa using hd
        rw [hlead c (by simp)] at hc
        cases hc

theorem joined_concat (ps : List (List Lexeme)) (p : List Lexeme) :
    joined (ps ++ [p]) = joined ps ++ p ++ [separator] := by
  simp [joined]

/-- In front of a piece stands the brace of the marker or a comma. -/
theorem exists_joined_concat {marker : List Char} (h : marker.getLast? = some '{')
    (front : List Char) (before : List (List Lexeme)) :
    ∃ inner c, front ++ marker ++ flatten (joined before) = inner ++ [c] ∧
      Text.isBlank c = false := by
  cases before using List.reverseRecOn with
  | nil =>
      obtain ⟨inner, rfl⟩ := List.getLast?_eq_some_iff.mp h
      exact ⟨front ++ inner, '{', by simp [joined], by decide⟩
  | append_singleton before p =>
      refine ⟨front ++ marker ++ flatten (joined before ++ p), ',', ?_, by decide⟩
      rw [joined_concat]
      simp [separator]

/-- What stands in front of an entry accepts any text behind it. -/
theorem stopsAt_of_getLast? {before : List (List Lexeme)} {gap : List Lexeme}
    (hgap : ∀ l, gap.getLast? = some l → ∀ next, StopsAt l next) {l : Lexeme}
    (hl : (joined before ++ gap).getLast? = some l) (next : Option Char) :
    StopsAt l next := by
  cases gap using List.reverseRecOn with
  | nil =>
      cases before using List.reverseRecOn with
      | nil => simp [joined] at hl
      | append_singleton before p =>
          rw [joined_concat, List.append_nil, List.getLast?_concat] at hl
          cases hl
          exact stopsAt_separator next
  | append_singleton gap k =>
      rw [← List.append_assoc, List.getLast?_concat] at hl
      exact hgap l (by rw [List.getLast?_concat, hl]) next

/-! ## The cut -/

/-- `out` is `text` without the entry of a key and some white space around it, and
without at most one comma behind it. -/
structure CutsOut (text out : List Char) (span : KeySpan)
    (kept lead entry trail tail : List Char) : Prop where
  text_eq : text = kept ++ lead ++ entry ++ trail ++ tail
  out_eq : out = kept ++ tail
  start_eq : span.start = Text.size (kept ++ lead)
  entryEnd_eq : span.entryEnd = Text.size (kept ++ lead ++ entry)
  lead_blank : ∀ c ∈ lead, Text.isBlank c = true
  trail_separator : IsSeparator trail
  front_whole : ¬SplitsReturn kept (lead ++ entry ++ trail ++ tail)
  back_whole : ¬SplitsReturn (kept ++ lead ++ entry ++ trail) tail

theorem ClosesGap.cutsOut {front back kept lead trail tail entry : List Char}
    {span : KeySpan} (h : ClosesGap front back kept lead trail tail)
    (hstart : span.start = Text.size front)
    (hend : span.entryEnd = Text.size (front ++ entry)) (hentry : Upright entry) :
    CutsOut (front ++ entry ++ back) (kept ++ tail) span kept lead entry trail tail := by
  have hlead := h.lead_blank
  obtain ⟨⟨c, hc, hline⟩, hlast⟩ := hentry
  rw [h.front_eq] at hstart hend
  refine ⟨by rw [h.front_eq, h.back_eq]; simp, rfl, hstart, hend,
    fun c hc => (hlead c hc).1,
    h.trail_separator, ?_, ?_⟩
  · rintro ⟨-, hnewline⟩
    cases lead with
    | nil =>
        simp only [List.nil_append, List.append_assoc, List.head?_append, hc,
          Option.some_or, Option.some.injEq] at hnewline
        exact hline hnewline
    | cons d lead => exact (hlead d (by simp)).2 (by simpa using hnewline)
  · rintro ⟨hreturn, hnewline⟩
    cases trail using List.reverseRecOn with
    | nil =>
        have hne : entry ≠ [] := by
          rintro rfl
          cases hc
        rw [List.append_nil, List.getLast?_append_of_ne_nil _ hne] at hreturn
        exact hlast hreturn
    | append_singleton trail d =>
        rw [← List.append_assoc, List.getLast?_concat] at hreturn
        exact h.not_splitsReturn ⟨by rw [List.getLast?_concat, hreturn], hnewline⟩

/-- The two sides of the cut of the first entry named `key`, over a layout of the
text with pieces `ps` and `rest` behind them. -/
structure Excision (marker text out front : List Char) (key : String) (span : KeySpan)
    (ps : List (List Lexeme)) (rest : List Lexeme) where
  /-- The pieces in front of the entry's. -/
  before : List (List Lexeme)
  /-- The piece of the entry. -/
  piece : List Lexeme
  /-- The pieces behind it. -/
  after : List (List Lexeme)
  member : Member
  /-- What is left of the gap in front of the entry. -/
  gap : List Lexeme
  /-- What is left of the body behind the entry. -/
  back : List Lexeme
  /-- The pieces that stand in place of the entry's and those behind it. -/
  new : List (List Lexeme)
  lead : List Char
  entry : List Char
  trail : List Char
  pieces_eq : ps = before ++ piece :: after
  member_eq : member? piece = some member
  name_eq : member.key.name = key
  name_ne : ∀ m ∈ before.filterMap member?, m.key.name ≠ key
  gap_isGap : ∀ l ∈ gap, l.isGap = true
  rejoined : Rejoined piece gap (rest ≠ []) after new
  new_covers : ∀ p ∈ new.head?, ¬HidesMember p
  laidOut : LaidOut marker out front (joined before ++ gap ++ back) (before ++ new) rest
  cutsOut : CutsOut text out span (front ++ marker ++ flatten (joined before ++ gap))
    lead entry trail (flatten (back ++ rest))

theorem cut?_eq_some_iff {marker text out : List Char} {key : String}
    {literal : StyleLiteral} (h : find? marker text = some literal) :
    cut? marker text key = some out ↔ ∃ span, literal.key? key = some span ∧
      out = closeGap (Text.before span.start text) (Text.after span.entryEnd text) := by
  simp only [cut?, h, Option.bind_eq_bind, Option.bind_some, Option.bind_eq_some_iff,
    Option.pure_def, Option.some.injEq]
  exact exists_congr fun span => and_congr_right fun _ => eq_comm

/-- Every cut is an excision. -/
theorem LaidOut.exists_excision {marker text front out : List Char}
    {body rest : List Lexeme} {ps : List (List Lexeme)} {key : String}
    (h : LaidOut marker text front body ps rest) (hmarker : marker.getLast? = some '{')
    (hcut : cut? marker text key = some out) :
    ∃ span, (literalOf Lexeme.name front marker body ps rest).key? key = some span ∧
      Nonempty (Excision marker text out front key span ps rest) := by
  obtain ⟨span, hspan, hout⟩ := (cut?_eq_some_iff h.find?_eq).mp hcut
  refine ⟨span, hspan, ?_⟩
  obtain ⟨before, p, after, m, rfl, hm, hkey, hbefore, hoffsets⟩ :=
    exists_of_find?_spans hspan
  obtain ⟨b₁, rfl, hdepth, hlayout⟩ := (layout_append_iff (by simp)).mp h.layout
  have hlexed : Lexed (joined before ++ (b₁ ++ rest)) := by
    simpa using h.lexed
  obtain ⟨ls, entry, b₂, q, rfl, hls, hupright, hend, hlexed₂, hlayout₂, hq⟩ :=
    hlayout.split_entry hlexed.right hm
  obtain ⟨-, hleadGap⟩ := member?_parts hm
  -- the texts in front of the entry and behind it
  obtain ⟨inner, d, hinner, hd⟩ := exists_joined_concat hmarker front before
  generalize hhead : inner ++ d :: flatten m.lead = head
  have hjoined : front ++ marker ++ flatten (joined before) ++ flatten m.lead = head := by
    rw [hinner, ← hhead, List.append_assoc, List.singleton_append]
  have htext : text = head ++ entry ++ flatten (b₂ ++ rest) := by
    rw [h.text_eq, ← hjoined]
    simp [hls]
  have hstart : span.start = Text.size head := by
    rw [hoffsets, ← hjoined]
    simp only [Member.span, Text.size_append]
  have hentryEnd : span.entryEnd = Text.size (head ++ entry) := by
    rw [hoffsets, hend, ← hjoined]
    simp only [Text.size_append]
  obtain ⟨kept, lead, trail, tail, hjoin, hclose⟩ :=
    closeGap_cases head (flatten (b₂ ++ rest))
  have hkeptTail : out = kept ++ tail := by
    rw [hout, hstart, hentryEnd, ← hjoin, htext, Text.after_size, List.append_assoc,
      Text.before_size]
  have hcuts := hclose.cutsOut hstart hentryEnd hupright
  rw [← htext, ← hkeptTail] at hcuts
  -- the lexemes in front of the entry
  obtain ⟨mid, rfl, hmid⟩ := exists_of_append_eq_blank (hhead.trans hclose.front_eq) hd
    fun e he => (hclose.lead_blank e he).1
  obtain ⟨⟨c, hc, hline⟩, -⟩ := hupright
  have hnext : (flatten (ls ++ rest)).head? = some c := by
    rw [flatten_append, hls, List.append_assoc, List.head?_append, hc, Option.some_or]
  have hlexedLead : Lexed (m.lead ++ (ls ++ rest)) := by simpa using hlexed.right
  obtain ⟨gap, hgap, rfl, hlast⟩ :=
    hlexedLead.split_gap hleadGap hnext hline hmid hclose.lead_blank
  have hgapIsGap : ∀ l ∈ gap, l.isGap = true :=
    fun l hl => hleadGap l (by rw [hgap]; exact List.mem_append_left _ hl)
  have hkept : inner ++ d :: flatten gap =
      front ++ marker ++ flatten (joined before ++ gap) := by
    rw [flatten_append, ← List.append_assoc, hinner, List.append_assoc,
      List.singleton_append]
  -- the lexemes behind it
  obtain ⟨b, new, htail, hlexed₃, hlayout₃, hrejoined⟩ := hlayout₂.drop_separator hlexed₂ hq
    hgapIsGap hclose
  have hlexedOut : Lexed (joined before ++ gap ++ b ++ rest) := by
    have hold : Lexed (joined before ++ gap ++ (singles lead ++ ls ++ rest)) := by
      rw [hgap] at hlexed
      simpa using hlexed
    rw [List.append_assoc _ b]
    exact hold.exchange hlexed₃ fun l hl => stopsAt_of_getLast? hlast hl _
  have hlayoutOut : Layout (joined before ++ gap ++ b) (before ++ new) rest :=
    (layout_append_iff hlayout₃.pieces_ne_nil).mpr ⟨gap ++ b, by simp, hdepth, hlayout₃⟩
  have houtText : out = front ++ marker ++ flatten (joined before ++ gap ++ b ++ rest) := by
    rw [hkeptTail, hkept, ← htail]
    simp
  have hcovers : ∀ r ∈ new.head?, ¬HidesMember r := by
    obtain ⟨r, others, rfl⟩ := hrejoined.exists_cons
    obtain ⟨behind, hb⟩ := hlayout₃.exists_append
    rw [List.append_assoc] at hb
    obtain rfl := List.append_cancel_left hb
    rw [← htail, List.append_assoc r, flatten_append r] at hclose
    simpa using hclose.not_hidesMember hd hgapIsGap
  rw [hkept, ← htail] at hcuts
  exact ⟨⟨before, p, after, m, gap, b, new, lead, entry, trail, rfl, hm, hkey, hbefore,
    hgapIsGap, hrejoined, hcovers, houtText ▸ h.exchange hlexedOut hlayoutOut, hcuts⟩⟩

end StylePrune.Literal
