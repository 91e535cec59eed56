import StylePrune.Proofs.Literal.Body
import StylePrune.Proofs.Literal.Frame
import StylePrune.Proofs.Text.Octets

/-!
# Where the offsets of a literal point

The offsets that the reader of literals returns are sums of sizes, and each of them is the
size of a part of the text.  The parts stand one behind the other: the marker, the entries
with a comma at least between two of them, the end of the literal.  An entry begins with the
name of its key, behind a quote perhaps, and its value ends with a brace.  All of this holds
whatever the marker and the text are, and whether the literal is closed or not.
-/

namespace StylePrune

open Text

/-- The offsets of a key are in order and lie between characters, with its name at the first
of them and a closing brace in front of the second. -/
structure KeySpan.IsSound (text : List Char) (span : KeySpan) : Prop where
  start_lt_stop : span.start < span.stop
  stop_le_entryEnd : span.stop ≤ span.entryEnd
  start_boundary : isBoundary text span.start = true
  stop_boundary : isBoundary text span.stop = true
  entryEnd_boundary : isBoundary text span.entryEnd = true
  brace : octet? (octets text) (span.stop - 1) = some '}'
  name : span.name.toList <+: after span.start text ∨
    ∃ quote, (quote = '\'' ∨ quote = '"') ∧
      quote :: span.name.toList <+: after span.start text

/-- The offsets of a literal lie between characters, with the entries in order between the
marker and the end. -/
structure StyleLiteral.IsSound (marker text : List Char) (literal : StyleLiteral) :
    Prop where
  start_boundary : isBoundary text literal.start = true
  stop_boundary : isBoundary text literal.stop = true
  marker_le_stop : literal.start + size marker ≤ literal.stop
  stop_le : literal.stop ≤ size text
  marker_le_start : ∀ span ∈ literal.keys, literal.start + size marker ≤ span.start
  entryEnd_le_stop : ∀ span ∈ literal.keys, span.entryEnd ≤ literal.stop
  ordered : literal.keys.Pairwise fun span span' => span.entryEnd < span'.start
  span : ∀ span ∈ literal.keys, span.IsSound text

namespace Literal

/-! ## One key -/

/-- The parts of a text that the offsets of a key point between. -/
structure SpanAt (text : List Char) (span : KeySpan) (front value trail back : List Char) :
    Prop where
  text_eq : text = front ++ value ++ trail ++ back
  start : span.start = size front
  stop : span.stop = size (front ++ value)
  entryEnd : span.entryEnd = size (front ++ value ++ trail)

theorem Member.exists_spanAt {p : List Lexeme} {m : Member} (hm : member? p = some m)
    {text front back : List Char} (htext : text = front ++ flatten p ++ back)
    (nameOf : Lexeme → String) (ended : Bool) :
    ∃ trail behind, SpanAt text (m.span nameOf (size front) ended) (front ++ flatten m.lead)
      (flatten m.value) trail behind := by
  obtain ⟨hp, -⟩ := member?_parts hm
  cases ended with
  | false =>
      refine ⟨[], flatten m.trail ++ back, by simp [htext, hp], ?_, ?_, ?_⟩
      all_goals simp [Member.span, Nat.add_assoc]
  | true =>
      obtain ⟨blanks, htrail, -⟩ :=
        exists_dropEndWhile_append isAsciiBlank (flatten m.trail)
      refine ⟨dropEndWhile isAsciiBlank (flatten m.trail), blanks ++ back, ?_, ?_, ?_, ?_⟩
      · rw [htext, hp, flatten_append, flatten_append]
        nth_rewrite 1 [htrail]
        simp only [List.append_assoc]
      all_goals simp [Member.span, Nat.add_assoc]

/-- A name stands at the beginning of its lexeme, or behind the quote there. -/
theorem StopsAt.name_prefix {l : Lexeme} {next : Option Char} (h : StopsAt l next)
    (hname : l.isName = true) :
    l.name.toList <+: l.chars ∨
      ∃ quote, (quote = '\'' ∨ quote = '"') ∧ quote :: l.name.toList <+: l.chars := by
  have hquoted : ∀ quote body, quote = '\'' ∨ quote = '"' →
      quote :: (quotedName (quote :: body)).toList <+: quote :: body := by
    intro quote body _
    rw [List.prefix_cons_inj, quotedName, String.toList_ofList]
    split
    · exact List.dropLast_prefix body
    · exact List.prefix_refl body
  cases h with
  | quoted hquote _ | brokenQuoted hquote _ | openQuoted hquote _ _ =>
      exact Or.inr ⟨_, hquote, hquoted _ _ hquote⟩
  | word _ _ _ => exact Or.inl (by simp [Lexeme.name])
  | @single c _ _ =>
      refine Or.inl ?_
      have hkind : singleKind c ≠ .quoted := by
        unfold singleKind
        grind
      simp [Lexeme.name, hkind]
  | _ => cases hname

theorem member?_value_name {p : List Lexeme} {m : Member} (hm : member? p = some m)
    (hproper : ∀ l ∈ p, ∃ next, StopsAt l next) :
    m.key.name.toList <+: flatten m.value ∨
      ∃ quote, (quote = '\'' ∨ quote = '"') ∧
        quote :: m.key.name.toList <+: flatten m.value := by
  obtain ⟨gap₁, gap₂, colon, brace, value, -, -, hkey, hvalue, -⟩ :=
    exists_of_member?_eq_some hm
  obtain ⟨next, hstop⟩ := hproper m.key (mem_of_member?_eq_some hm)
  have hfront : m.key.chars <+: flatten m.value := by
    rw [hvalue, flatten_cons]
    exact List.prefix_append _ _
  exact (hstop.name_prefix hkey).imp (·.trans hfront)
    fun ⟨quote, hquote, hprefix⟩ => ⟨quote, hquote, hprefix.trans hfront⟩

/-- The offsets of a key whose parts stand in a text are sound. -/
theorem SpanAt.isSound {text front trail back : List Char} {p : List Lexeme} {m : Member}
    {span : KeySpan} (h : SpanAt text span front (flatten m.value) trail back)
    (hname : span.name = m.key.name) (hm : member? p = some m)
    (hproper : ∀ l ∈ p, ∃ next, StopsAt l next) : span.IsSound text := by
  obtain ⟨c, inner, hvalue, -⟩ := member?_flatten_value hm hproper
  obtain ⟨rfl, hstart, hstop, hend⟩ := h
  have hbehind : after span.start (front ++ flatten m.value ++ trail ++ back) =
      flatten m.value ++ (trail ++ back) := by
    rw [hstart, List.append_assoc, List.append_assoc, after_size]
  have hlast : span.stop = size (front ++ c :: inner) + 1 := by
    rw [hstop, hvalue]
    simp only [size_append, size_cons, size_nil]
    have hbrace : ('}' : Char).utf8Size = 1 := rfl
    omega
  have hpos := c.utf8Size_pos
  refine ⟨?_, ?_, isBoundary_iff.mpr
    ⟨front, flatten m.value ++ (trail ++ back), by simp only [List.append_assoc], hstart⟩,
    isBoundary_iff.mpr ⟨_, trail ++ back, by simp only [List.append_assoc], hstop⟩,
    isBoundary_iff.mpr ⟨_, back, rfl, hend⟩, ?_, ?_⟩
  · rw [hlast, hstart, size_append, size_cons]
    omega
  · rw [hstop, hend, size_append (front ++ _)]
    omega
  · have htext : front ++ flatten m.value ++ trail ++ back =
        front ++ c :: inner ++ '}' :: (trail ++ back) := by simp [hvalue]
    rw [hlast, Nat.add_sub_cancel, htext, octet?_size_iff (by decide)]
    rfl
  · rw [hbehind, hname]
    have hfront := List.prefix_append (flatten m.value) (trail ++ back)
    exact (member?_value_name hm hproper).imp (·.trans hfront)
      fun ⟨quote, hquote, hprefix⟩ => ⟨quote, hquote, hprefix.trans hfront⟩

/-! ## All keys -/

theorem Member.span_bounds {p : List Lexeme} {m : Member} (hm : member? p = some m)
    (nameOf : Lexeme → String) (pos : Nat) (ended : Bool) :
    pos ≤ (m.span nameOf pos ended).start ∧
      (m.span nameOf pos ended).entryEnd ≤ pos + size (flatten p) := by
  obtain ⟨hp, -⟩ := member?_parts hm
  obtain ⟨blanks, htrail, -⟩ := exists_dropEndWhile_append isAsciiBlank (flatten m.trail)
  have hsize := congrArg size htrail
  simp only [hp, flatten_append, size_append] at hsize ⊢
  cases ended
  all_goals
    simp only [Member.span, Bool.false_eq_true, if_false, if_true]
    omega

/-- The keys of one piece lie in the piece, and a comma stands between two pieces. -/
theorem Layout.spans_ordered {body rest : List Lexeme} {ps : List (List Lexeme)}
    (h : Layout body ps rest) (nameOf : Lexeme → String) (pos : Nat) (closed : Bool) :
    (∀ span ∈ spans nameOf pos closed ps,
        pos ≤ span.start ∧ span.entryEnd ≤ pos + size (flatten body)) ∧
      (spans nameOf pos closed ps).Pairwise fun span span' =>
        span.entryEnd < span'.start := by
  have hone : ∀ (p : List Lexeme) (pos : Nat) (ended : Bool),
      ∀ span ∈ ((member? p).map fun m => m.span nameOf pos ended).toList,
        pos ≤ span.start ∧ span.entryEnd ≤ pos + size (flatten p) := by
    intro p pos ended span hspan
    obtain ⟨m, hm, rfl⟩ := Option.map_eq_some_iff.mp (Option.mem_toList.mp hspan)
    exact Member.span_bounds hm nameOf pos ended
  have hsingle : ∀ key : Option KeySpan,
      key.toList.Pairwise fun span span' => span.entryEnd < span'.start := by
    intro key
    cases key <;> simp
  induction h generalizing pos with
  | @unclosed p _ _ =>
      rw [spans, spans, List.append_nil]
      exact ⟨hone p pos _, hsingle _⟩
  | @closed p _ _ _ _ =>
      rw [spans, spans, List.append_nil]
      exact ⟨hone p pos _, hsingle _⟩
  | @comma p body rest ps _ _ ih =>
      obtain ⟨hbounds, hordered⟩ := ih (pos + size (flatten p) + 1)
      have hhead := hone p pos (closed || !ps.isEmpty)
      have hbody : size (flatten (p ++ separator :: body)) =
          size (flatten p) + 1 + size (flatten body) := by
        simp [size_separator, Nat.add_assoc]
      rw [spans, hbody]
      refine ⟨fun span hspan => ?_, List.pairwise_append.mpr ⟨hsingle _, hordered, ?_⟩⟩
      · rcases List.mem_append.mp hspan with hspan | hspan
        · have := hhead span hspan
          omega
        · have := hbounds span hspan
          omega
      · intro span hspan span' hspan'
        have := hhead span hspan
        have := hbounds span' hspan'
        omega

/-! ## The literal -/

theorem exists_closingSize (cs : List Char) :
    ∃ closing back, cs = closing ++ back ∧ closingSize cs = size closing := by
  unfold closingSize
  split
  · rename_i inner hinner
    have hcs : cs = cs.takeWhile isTab ++ [')'] ++ inner := by
      rw [List.append_assoc, List.singleton_append, ← hinner,
        List.takeWhile_append_dropWhile]
    dsimp only
    split
    · rename_i back hback
      refine ⟨cs.takeWhile isTab ++ [')'] ++ inner.takeWhile isTab ++ [';'], back, ?_, ?_⟩
      · rw [List.append_assoc, List.singleton_append, ← hback, List.append_assoc,
          List.takeWhile_append_dropWhile, ← hcs]
      · simp only [size_append]
        rfl
    · refine ⟨cs.takeWhile isTab ++ [')'], inner, hcs, ?_⟩
      rw [size_append]
      rfl
  · exact ⟨[], cs, rfl, rfl⟩

/-- The end of a literal closes a part of the text. -/
theorem LaidOut.exists_closing {marker text front : List Char} {body rest : List Lexeme}
    {ps : List (List Lexeme)} (h : LaidOut marker text front body ps rest) :
    ∃ closing back, flatten rest = closing ++ back ∧ closingPart rest = size closing := by
  rcases h.layout.rest_cases with rfl | ⟨brace, behind, rfl, hbrace⟩
  · exact ⟨[], [], rfl, rfl⟩
  · obtain ⟨next, hstop⟩ := h.lexed.proper (l := brace) (by simp)
    obtain ⟨closing, back, hbehind, hsize⟩ := exists_closingSize (flatten behind)
    have hchars := hstop.chars_of_punctuation (Or.inr rfl) hbrace
    refine ⟨'}' :: closing, back, by simp [hchars, hbehind], ?_⟩
    rw [closingPart, hsize]
    rfl

/-- The parts of a text in front of its literal, in it and behind it. -/
theorem LaidOut.exists_parts_literal {marker text front : List Char}
    {body rest : List Lexeme} {ps : List (List Lexeme)}
    (h : LaidOut marker text front body ps rest) :
    ∃ closing back, text = front ++ marker ++ flatten body ++ closing ++ back ∧
      (literalOf Lexeme.name front marker body ps rest).stop =
        size (front ++ marker ++ flatten body ++ closing) := by
  obtain ⟨closing, back, hrest, hsize⟩ := h.exists_closing
  refine ⟨closing, back, ?_, ?_⟩
  · rw [h.text_eq_append, hrest, List.append_assoc _ closing]
  · simp only [literalOf, hsize, size_append]

theorem LaidOut.span_isSound {marker text front : List Char} {body rest : List Lexeme}
    {ps : List (List Lexeme)} (h : LaidOut marker text front body ps rest) {span : KeySpan}
    (hspan : span ∈ (literalOf Lexeme.name front marker body ps rest).keys) :
    span.IsSound text := by
  obtain ⟨before, p, after, m, rfl, hm, rfl⟩ := (mem_spans_iff _).mp hspan
  have htext : text = front ++ marker ++ flatten (joined before) ++ flatten p ++
      (flatten (led after) ++ flatten rest) := by
    rw [h.text_eq_append, h.layout.body_eq]
    simp only [flatten_append, List.append_assoc]
  have hproper : ∀ l ∈ p, ∃ next, StopsAt l next :=
    fun l hl => h.proper (h.layout.mem_body (by simp) hl)
  rw [← size_append, ← size_append]
  obtain ⟨trail, behind, hat⟩ := Member.exists_spanAt hm htext Lexeme.name _
  exact hat.isSound rfl hm hproper

/-- The offsets of every literal that is found are sound. -/
theorem isSound_of_find? {marker text : List Char} {literal : StyleLiteral}
    (h : find? marker text = some literal) : literal.IsSound marker text := by
  obtain ⟨front, body, ps, rest, hlaid, rfl⟩ := find?_eq_some_iff.mp h
  obtain ⟨closing, back, htext, hstop⟩ := hlaid.exists_parts_literal
  have hstart : isBoundary text (size front) = true :=
    isBoundary_iff.mpr ⟨front, marker ++ flatten (body ++ rest),
      by rw [hlaid.text_eq, List.append_assoc], rfl⟩
  have hend := isBoundary_iff.mpr ⟨_, back, htext, hstop⟩
  obtain ⟨hbounds, hordered⟩ := hlaid.layout.spans_ordered Lexeme.name
    (size front + size marker) (!rest.isEmpty)
  refine ⟨hstart, hend, ?_, le_size_of_isBoundary hend,
    fun span hspan => (hbounds span hspan).1,
    fun span hspan => ?_, hordered, fun span hspan => hlaid.span_isSound hspan⟩
  · rw [hstop]
    simp only [literalOf, size_append]
    omega
  · have := (hbounds span hspan).2
    rw [hstop]
    simp only [size_append]
    omega

end Literal

end StylePrune
