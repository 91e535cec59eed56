import StylePrune.Proofs.Literal.Body
import StylePrune.Proofs.Literal.Frame

/-!
# Commas that are left over

A cut takes the comma behind an entry along where only spaces and tabs stand in front of
it.  A comma on a later line stays, and with it an entry of white space and comments.  In
a closed literal that has no such entry this is the only way to one
(`cut?_noEmptyEntry_iff`).
-/

namespace StylePrune.Literal

/-! ## Empty entries -/

/-- White space of any kind, and comments. -/
def Lexeme.isFiller (l : Lexeme) : Bool :=
  l.isGap || l.chars.all Text.isBlank

/-- A piece of more than white space and comments. -/
def HasContent (p : List Lexeme) : Prop :=
  ∃ l ∈ p, l.isFiller = false

instance (p : List Lexeme) : Decidable (HasContent p) :=
  inferInstanceAs (Decidable (∃ l ∈ p, l.isFiller = false))

/-- In front of each comma of the first literal stands more than white space and
comments. -/
def NoEmptyEntry (marker text : List Char) : Prop :=
  ∀ p ∈ (piecesOf marker text).dropLast, HasContent p

instance (marker text : List Char) : Decidable (NoEmptyEntry marker text) :=
  inferInstanceAs (Decidable (∀ p ∈ (piecesOf marker text).dropLast, HasContent p))

/-- A text begins with a comma behind white space that is not all spaces and tabs. -/
def CommaApart (back : List Char) : Prop :=
  (back.dropWhile Text.isAsciiBlank).head? = some ',' ∧
    ∃ c ∈ back.takeWhile Text.isAsciiBlank, Text.isTab c = false

-- over the list, as an instance for all characters would go through each of them
instance (back : List Char) : Decidable (CommaApart back) :=
  @instDecidableAnd _ _ inferInstance (List.decidableBEx _ _)

theorem not_hasContent_gap {p : List Lexeme} (h : ∀ l ∈ p, l.isGap = true) :
    ¬HasContent p := by
  rintro ⟨l, hl, hfiller⟩
  simp [Lexeme.isFiller, h l hl] at hfiller

/-- White space in front of a piece is no content. -/
theorem HasContent.of_singles_append {blanks : List Char} {q : List Lexeme}
    (h : HasContent (singles blanks ++ q)) (hblanks : ∀ c ∈ blanks, Text.isBlank c = true) :
    HasContent q := by
  obtain ⟨l, hl, hfiller⟩ := h
  rcases List.mem_append.mp hl with hl | hl
  · obtain ⟨c, hc, rfl⟩ := List.mem_map.mp hl
    simp [Lexeme.isFiller, hblanks c hc] at hfiller
  · exact ⟨l, hl, hfiller⟩

/-- Pieces keep their content where white space in front of the first one gives way to
anything else. -/
theorem forall_hasContent_merged {blanks : List Char} {q : List Lexeme}
    {after : List (List Lexeme)} (hblanks : ∀ c ∈ blanks, Text.isBlank c = true)
    (h : ∀ p ∈ ((singles blanks ++ q) :: after).dropLast, HasContent p)
    (gap : List Lexeme) :
    ∀ p ∈ ((gap ++ q) :: after).dropLast, HasContent p := by
  cases after with
  | nil => simp
  | cons r after =>
      rw [List.dropLast_cons_cons, List.forall_mem_cons] at h ⊢
      obtain ⟨l, hl, hfiller⟩ := h.1.of_singles_append hblanks
      exact ⟨⟨l, List.mem_append_right _ hl, hfiller⟩, h.2⟩

section CommaApart

variable {slack : List Char} (hslack : ∀ c ∈ slack, Text.isAsciiBlank c = true)

include hslack

theorem commaApart_comma_iff (behind : List Char) :
    CommaApart (slack ++ ',' :: behind) ↔ ∃ c ∈ slack, Text.isTab c = false := by
  have hstop : ∀ c, (',' :: behind).head? = some c → Text.isAsciiBlank c = false := by
    rintro c hc
    obtain rfl : ',' = c := by simpa using hc
    rfl
  rw [CommaApart, Text.takeWhile_append_eq hslack hstop,
    Text.dropWhile_append_eq hslack hstop]
  simp

theorem not_commaApart_brace (behind : List Char) :
    ¬CommaApart (slack ++ '}' :: behind) := by
  have hstop : ∀ c, ('}' :: behind).head? = some c → Text.isAsciiBlank c = false := by
    rintro c hc
    obtain rfl : '}' = c := by simpa using hc
    rfl
  rw [CommaApart, Text.dropWhile_append_eq hslack hstop]
  simp

end CommaApart

/-! ## What a cut does with the comma -/

section Cut

variable {text out kept lead entry trail tail : List Char} {span : KeySpan}

theorem CutsOut.before_start (h : CutsOut text out span kept lead entry trail tail) :
    Text.before span.start text = kept ++ lead := by
  rw [h.start_eq, h.text_eq, List.append_assoc, List.append_assoc, Text.before_size]

theorem CutsOut.after_entryEnd (h : CutsOut text out span kept lead entry trail tail) :
    Text.after span.entryEnd text = trail ++ tail := by
  rw [h.entryEnd_eq, h.text_eq, List.append_assoc _ trail, Text.after_size]

/-- A comma that only spaces and tabs part from an entry is in what the cut drops. -/
theorem CutsOut.comma_notMem_tail {slack behind filler : List Char}
    (h : CutsOut text out span kept lead entry trail tail)
    (hout : out = closeGap (Text.before span.start text) (Text.after span.entryEnd text))
    (hback : trail ++ tail = slack ++ ',' :: behind)
    (hslack : ∀ c ∈ slack, Text.isTab c = true) :
    tail ≠ filler ++ ',' :: behind := by
  rintro rfl
  obtain ⟨kept', lead', trail', tail', hclose, hgap⟩ :=
    closeGap_cases (kept ++ lead) (trail ++ (filler ++ ',' :: behind))
  obtain ⟨blanks, rfl, -⟩ := hgap.comma_line hback hslack (firstLine_restOfLine behind)
  have hbehind : behind = blanks ++ tail' := by
    have hwhole := hback.symm.trans hgap.back_eq
    simpa using hwhole
  have hkept : kept' = kept ++ (filler ++ ',' :: blanks) := by
    rw [h.before_start, h.after_entryEnd, hclose, h.out_eq] at hout
    refine List.append_cancel_right (hout.symm.trans ?_)
    rw [hbehind]
    simp
  have hfront := hgap.front_eq
  rw [hkept, List.append_assoc] at hfront
  have hcomma := h.lead_blank ',' (by rw [List.append_cancel_left hfront]; simp)
  exact absurd hcomma (by decide)

/-- Where a comma is dropped, only spaces and tabs stand in front of it, and only white
space behind. -/
theorem IsSeparator.of_comma {slack blanks : List Char}
    (h : IsSeparator (slack ++ ',' :: blanks)) (hslack : ',' ∉ slack) :
    (∀ c ∈ slack, Text.isTab c = true) ∧ ∀ c ∈ blanks, Text.isBlank c = true := by
  rcases h with hblank | ⟨tabs, blanks', heq, htabs, hblanks⟩
  · exact absurd (hblank ',' (by simp)) (by decide)
  · rcases List.append_eq_append_iff.mp heq with ⟨mid, rfl, hmid⟩ | ⟨mid, rfl, hmid⟩
    · cases mid with
      | nil =>
          obtain rfl := (List.cons.inj hmid).2
          exact ⟨by simpa using htabs, hblanks⟩
      | cons c mid =>
          obtain rfl := (List.cons.inj hmid).1
          exact absurd (htabs ',' (by simp)) (by decide)
    · cases mid with
      | nil =>
          obtain rfl := (List.cons.inj hmid).2
          exact ⟨by simpa using htabs, hblanks⟩
      | cons c mid =>
          obtain rfl := (List.cons.inj hmid).1
          exact absurd (by simp) hslack

end Cut

/-! ## Empty entries behind a cut -/

section Excision

variable {marker text out front : List Char} {key : String} {span : KeySpan}
  {body rest : List Lexeme} {ps : List (List Lexeme)}

theorem Excision.back_eq (e : Excision marker text out front key span ps rest)
    {q : List Lexeme} {others : List (List Lexeme)}
    (hnew : e.new = (e.gap ++ q) :: others) :
    e.back = q ++ led others := by
  have hbody := e.laidOut.layout
  rw [hnew] at hbody
  have hpieces := hbody.body_eq
  simp only [List.append_assoc] at hpieces
  exact List.append_cancel_left (List.append_cancel_left hpieces)

/-- Behind an entry stand the white space at the end of its piece and the other pieces. -/
theorem Excision.exists_slack (e : Excision marker text out front key span ps rest)
    (h : LaidOut marker text front body ps rest) (hclosed : rest ≠ [])
    (hspan : (literalOf Lexeme.name front marker body ps rest).key? key = some span) :
    ∃ slack, (∀ c ∈ slack, Text.isAsciiBlank c = true) ∧
      Text.after span.entryEnd text = slack ++ flatten (led e.after ++ rest) := by
  obtain ⟨slack, hslack, hblanks⟩ :=
    Text.exists_dropEndWhile_append Text.isAsciiBlank (flatten e.member.trail)
  have hentry := (e.pieces_eq ▸ h).entryAt hclosed e.member_eq e.name_eq e.name_ne hslack
  exact ⟨slack, hblanks, hentry.after_entryEnd h.find?_eq hspan⟩

/-- Behind the body of a closed literal stands its brace. -/
theorem LaidOut.exists_flatten_rest (h : LaidOut marker text front body ps rest)
    (hclosed : rest ≠ []) : ∃ behind, flatten rest = '}' :: behind := by
  rcases h.layout.rest_cases with hnil | ⟨brace, behind, rfl, hkind⟩
  · exact (hclosed hnil).elim
  · obtain ⟨next, hstop⟩ := h.lexed.proper (List.mem_append_right body List.mem_cons_self)
    refine ⟨flatten behind, ?_⟩
    rw [flatten_cons, hstop.chars_of_punctuation (Or.inr rfl) hkind]
    rfl

theorem flatten_led_cons (p : List Lexeme) (after : List (List Lexeme))
    (rest : List Lexeme) :
    flatten (led (p :: after) ++ rest) = ',' :: flatten (p ++ led after ++ rest) := by
  simp [led, separator]

/-- A cut leaves an empty entry exactly if the comma behind its entry stands apart. -/
theorem Excision.noEmpty_iff (e : Excision marker text out front key span ps rest)
    (h : LaidOut marker text front body ps rest) (hclosed : rest ≠ [])
    (hspan : (literalOf Lexeme.name front marker body ps rest).key? key = some span)
    (hout : out = closeGap (Text.before span.start text) (Text.after span.entryEnd text))
    (hcontent : ∀ p ∈ ps.dropLast, HasContent p) :
    (∀ p ∈ (e.before ++ e.new).dropLast, HasContent p) ↔
      ¬CommaApart (Text.after span.entryEnd text) := by
  obtain ⟨slack, hslack, hback⟩ := e.exists_slack h hclosed hspan
  rw [hback]
  have hcuts := e.cutsOut
  rw [e.pieces_eq, List.dropLast_append_cons, List.forall_mem_append] at hcontent
  obtain ⟨hbefore, hbehind⟩ := hcontent
  have hrejoined := e.rejoined
  obtain ⟨after, hafter⟩ : ∃ after, e.after = after := ⟨_, rfl⟩
  obtain ⟨new, hnew⟩ : ∃ new, e.new = new := ⟨_, rfl⟩
  rw [hafter] at hrejoined hback hbehind ⊢
  rw [hnew] at hrejoined ⊢
  -- the comma stays and ends a piece of nothing but gaps, or goes and the next piece
  -- moves up
  cases hrejoined with
  | @kept q _ hq _ =>
      rw [List.dropLast_append_cons, List.forall_mem_append]
      rw [e.back_eq hnew] at hcuts
      cases after with
      | nil =>
          obtain ⟨behind, hbrace⟩ := h.exists_flatten_rest hclosed
          rw [led, List.flatMap_nil, List.nil_append, hbrace]
          exact iff_of_true ⟨hbefore, by simp⟩ (not_commaApart_brace hslack behind)
      | cons r after =>
          have htail : flatten (q ++ led (r :: after) ++ rest) =
              flatten q ++ ',' :: flatten (r ++ led after ++ rest) := by
            rw [List.append_assoc, flatten_append, flatten_led_cons]
          rw [flatten_led_cons] at hback ⊢
          rw [commaApart_comma_iff hslack]
          refine iff_of_false ?_ (not_not.mpr ?_)
          · rintro ⟨-, hkept⟩
            refine not_hasContent_gap ?_ (hkept (e.gap ++ q) (by simp))
            intro l hl
            exact (List.mem_append.mp hl).elim (e.gap_isGap l) (hq hclosed l)
          · by_contra htabs
            exact hcuts.comma_notMem_tail hout (hcuts.after_entryEnd.symm.trans hback)
              (by simpa using htabs) htail
  | @merged blanks q after _ =>
      rw [List.dropLast_append_cons, List.forall_mem_append]
      rw [e.back_eq hnew] at hcuts
      rw [flatten_led_cons] at hback ⊢
      have htrail : e.trail = slack ++ ',' :: blanks := by
        have hwhole := hcuts.after_entryEnd.symm.trans hback
        refine List.append_cancel_right (hwhole.trans ?_)
        simp
      have hcomma : ',' ∉ slack := fun hmem => absurd (hslack ',' hmem) (by decide)
      obtain ⟨htabs, hblanks⟩ := (htrail ▸ hcuts.trail_separator).of_comma hcomma
      rw [commaApart_comma_iff hslack]
      rw [List.dropLast_cons_cons, List.forall_mem_cons] at hbehind
      refine iff_of_true ⟨hbefore, forall_hasContent_merged hblanks hbehind.2 e.gap⟩ ?_
      rintro ⟨c, hc, htab⟩
      rw [htabs c hc] at htab
      cases htab

end Excision

/-- In a closed literal without an empty entry, a cut leaves one, and so a comma behind a
brace or another comma, exactly if white space other than spaces and tabs parts the
entry's comma from the entry. -/
theorem cut?_noEmptyEntry_iff {marker text out : List Char} {literal : StyleLiteral}
    {key : String} {span : KeySpan} (hmarker : marker.getLast? = some '{')
    (hfind : find? marker text = some literal) (hclosed : literal.terminated = true)
    (hspan : literal.key? key = some span) (hcut : cut? marker text key = some out)
    (hempty : NoEmptyEntry marker text) :
    ∃ literal', find? marker out = some literal' ∧ literal'.terminated = true ∧
      (NoEmptyEntry marker out ↔ ¬CommaApart (Text.after span.entryEnd text)) := by
  obtain ⟨front, body, ps, rest, hlaid, rfl⟩ := find?_eq_some_iff.mp hfind
  have hrest : rest ≠ [] := by
    rintro rfl
    cases hclosed
  obtain ⟨span', hspan', ⟨e⟩⟩ := hlaid.exists_excision hmarker hcut
  obtain rfl := Option.some.inj (hspan.symm.trans hspan')
  obtain ⟨span', hspan'', hout⟩ := (cut?_eq_some_iff hfind).mp hcut
  obtain rfl := Option.some.inj (hspan.symm.trans hspan'')
  refine ⟨_, e.laidOut.find?_eq, hclosed, ?_⟩
  rw [NoEmptyEntry, hlaid.piecesOf_eq] at hempty
  rw [NoEmptyEntry, e.laidOut.piecesOf_eq]
  exact e.noEmpty_iff hlaid hrest hspan hout hempty

/-- A comma behind spaces on the entry's line goes with the entry. -/
theorem cut?_noEmptyEntry_iff_line :
    let marker := ['(', '{']
    let text := "({ a: {} , b: {} })".toList
    NoEmptyEntry marker text ∧
      ∃ out, cut? marker text "a" = some out ∧ NoEmptyEntry marker out := by
  intro marker text
  have hread : find? marker text =
      some ⟨0, 19, [⟨"a", 3, 8, 8⟩, ⟨"b", 11, 16, 16⟩], true⟩ := by decide +kernel
  have hspan : StyleLiteral.key? ⟨0, 19, [⟨"a", 3, 8, 8⟩, ⟨"b", 11, 16, 16⟩], true⟩ "a" =
      some ⟨"a", 3, 8, 8⟩ := by decide +kernel
  have hempty : NoEmptyEntry marker text := by decide +kernel
  have hline : ¬CommaApart (Text.after 8 text) := by decide +kernel
  obtain ⟨out, hcut⟩ := Option.isSome_iff_exists.mp
    (by decide +kernel : (cut? marker text "a").isSome = true)
  obtain ⟨-, -, -, hiff⟩ :=
    cut?_noEmptyEntry_iff (by decide +kernel) hread rfl hspan hcut hempty
  exact ⟨hempty, out, hcut, hiff.mpr hline⟩

/-- A comma on the line below stays, and stands behind the brace of the marker. -/
theorem cut?_leaves_comma :
    let marker := ['(', '{']
    let text := "(\x7b\n  a: {}\n  , b: {}\n\x7d)".toList
    let out := "(\x7b\n  , b: {}\n\x7d)".toList
    (find? marker text).map StyleLiteral.terminated = some true ∧ NoEmptyEntry marker text ∧
      cut? marker text "a" = some out ∧ ¬NoEmptyEntry marker out := by
  decide +kernel

end StylePrune.Literal
