import StylePrune.Proofs.Literal.Excision
import StylePrune.StyleTable

/-!
# Only the named block goes

What one cut leaves alone, whatever the text: everything but one stretch around
the entry, the residual of the file and the name its literal is bound to, where
the literal begins and whether it is closed, and the blocks of all other keys
in their order.  New keys may come up: white space that the reader does not skip
hides a key, but goes with the blank line behind the comma of a cut entry.
-/

namespace StylePrune.Literal

/-! ## Members behind the cut -/

theorem map_filterMap_member?_cons {β : Type} (g : Member → β) (p : List Lexeme)
    (ps : List (List Lexeme)) :
    ((p :: ps).filterMap member?).map g =
      ((member? p).map g).toList ++ (ps.filterMap member?).map g := by
  cases h : member? p <;> simp [h]

section Members

variable {β : Type} {g : Member → β} (hg : ∀ m lead, g { m with lead := lead } = g m)

include hg

theorem map_member?_gap_append {gap : List Lexeme} (h : ∀ l ∈ gap, l.isGap = true)
    (q : List Lexeme) : (member? (gap ++ q)).map g = (member? q).map g := by
  rw [member?_gap_append h, Option.map_map]
  congr 1
  funext m
  exact hg m _

/-- Behind a cut all members come back. -/
theorem Rejoined.sublist {piece gap : List Lexeme} {ended : Prop}
    {after new : List (List Lexeme)} (h : Rejoined piece gap ended after new)
    (hgap : ∀ l ∈ gap, l.isGap = true) :
    ((after.filterMap member?).map g).Sublist ((new.filterMap member?).map g) := by
  cases h with
  | kept _ _ =>
      rw [map_filterMap_member?_cons]
      exact List.sublist_append_right _ _
  | @merged blanks q after _ =>
      rw [map_filterMap_member?_cons, map_filterMap_member?_cons,
        map_member?_gap_append hg hgap]
      refine List.Sublist.append ?_ (List.Sublist.refl _)
      rcases member?_singles_cases blanks with hblanks | hnone
      · rw [map_member?_gap_append hg hblanks]
      · simp [hnone]

end Members

/-! ## Keys other than the cut one -/

theorem erase_eq_eraseP_of_find? {α : Type} [DecidableEq α] {p : α → Bool} {xs : List α}
    {x : α} (h : xs.find? p = some x) : xs.erase x = xs.eraseP p := by
  induction xs with
  | nil => rfl
  | cons y xs ih =>
      by_cases hy : p y = true
      · obtain rfl : y = x := by simpa [hy] using h
        simp [hy]
      · have hne : y ≠ x := by
          rintro rfl
          exact hy (List.find?_some h)
        rw [List.find?_cons_of_neg hy] at h
        rw [List.erase_cons_tail (by simpa using hne), List.eraseP_cons_of_neg hy, ih h]

theorem Excision.map_eraseP {marker text out front : List Char} {key : String}
    {span : KeySpan} {ps : List (List Lexeme)} {rest : List Lexeme}
    (e : Excision marker text out front key span ps rest) {β : Type}
    {g : Member → String × β} (hg : ∀ m, (g m).1 = m.key.name) :
    ((ps.filterMap member?).map g).eraseP (·.1 == key) =
      (e.before.filterMap member?).map g ++ (e.after.filterMap member?).map g := by
  have hbefore : ∀ x ∈ (e.before.filterMap member?).map g, ¬(x.1 == key) = true := by
    intro x hx
    obtain ⟨m, hm, rfl⟩ := List.mem_map.mp hx
    simpa [hg] using e.name_ne m hm
  have hmember : ((g e.member).1 == key) = true := by simp [hg, e.name_eq]
  conv_lhs => rw [e.pieces_eq]
  rw [List.filterMap_append, List.map_append, List.eraseP_append_right _ hbefore,
    map_filterMap_member?_cons, e.member_eq, Option.map_some, Option.toList_some,
    List.singleton_append, List.eraseP_cons_of_pos (by exact hmember)]

theorem LaidOut.map_block_keys {marker text front : List Char} {body rest : List Lexeme}
    {ps : List (List Lexeme)} (h : LaidOut marker text front body ps rest) :
    (literalOf Lexeme.name front marker body ps rest).keys.map (KeySpan.block text) =
      (ps.filterMap member?).map Member.block := by
  rw [literalOf, ← Text.size_append, h.text_eq_append]
  exact map_block_spans h.layout (front ++ marker) (flatten rest)

/-! ## The text around the literal -/

theorem Layout.rest_cases {body rest : List Lexeme} {ps : List (List Lexeme)}
    (h : Layout body ps rest) :
    rest = [] ∨ ∃ brace behind, rest = brace :: behind ∧ brace.kind = .closing := by
  induction h with
  | unclosed _ => exact Or.inl rfl
  | closed _ hbrace => exact Or.inr ⟨_, _, rfl, hbrace⟩
  | comma _ _ ih => exact ih

/-- What is extracted from a text besides the keys depends on what stands around the
literal. -/
theorem LaidOut.extract_eq {marker text front : List Char} {body rest : List Lexeme}
    {ps : List (List Lexeme)} (h : LaidOut marker text front body ps rest) (file : Path) :
    (StyleTable.extract file marker text).1 =
      ⟨some ⟨file, StyleTable.firstOccurrences
          ((literalOf Lexeme.name front marker body ps rest).keys.map KeySpan.name),
        StyleTable.binding? front⟩,
        front ++ Text.after (closingPart rest) (flatten rest)⟩ := by
  have hfront : Text.before (Text.size front) text = front := by
    rw [h.text_eq, List.append_assoc, Text.before_size]
  have hback : Text.after (literalOf Lexeme.name front marker body ps rest).stop text =
      Text.after (closingPart rest) (flatten rest) := by
    have hstop : (literalOf Lexeme.name front marker body ps rest).stop =
        Text.size (front ++ marker ++ flatten body) + closingPart rest := by
      simp only [literalOf, Text.size_append]
    rw [hstop, h.text_eq_append, Text.after_size_add]
  have hstart : (literalOf Lexeme.name front marker body ps rest).start =
      Text.size front := rfl
  simp only [StyleTable.extract, h.find?_eq, hback, hstart, hfront]

/-- A cut takes the first block of a name and what separates it, and nothing else:
the rest of the file, the place and the closing of its literal, and all other
blocks in their order are what they were. -/
theorem cut?_frame {marker text out : List Char} {key : String}
    (hmarker : marker.getLast? = some '{') (hcut : cut? marker text key = some out) :
    ∃ literal literal' span kept lead entry trail tail,
      find? marker text = some literal ∧ literal.key? key = some span ∧
      CutsOut text out span kept lead entry trail tail ∧
      literal.start + Text.size marker ≤ Text.size kept ∧
      (literal.terminated = true → ∃ inner behind, tail = inner ++ '}' :: behind ∧
        literal.stop =
          Text.size (kept ++ lead ++ entry ++ trail ++ inner) + 1 + closingSize behind) ∧
      (∀ file,
        (StyleTable.extract file marker out).1.residual =
          (StyleTable.extract file marker text).1.residual ∧
        (StyleTable.extract file marker out).1.table.map StyleTable.binding =
          (StyleTable.extract file marker text).1.table.map StyleTable.binding) ∧
      find? marker out = some literal' ∧ literal'.start = literal.start ∧
      literal'.terminated = literal.terminated ∧
      ((literal.keys.erase span).map (KeySpan.block text)).Sublist
        (literal'.keys.map (KeySpan.block out)) := by
  obtain ⟨literal, hliteral⟩ : ∃ literal, find? marker text = some literal := by
    rw [← Option.ne_none_iff_exists']
    intro hnone
    simp [cut?, hnone] at hcut
  obtain ⟨front, body, ps, rest, hlaid⟩ := exists_laidOut hliteral
  obtain ⟨span, hspan, ⟨e⟩⟩ := hlaid.exists_excision hmarker hcut
  refine ⟨_, _, span, _, e.lead, e.entry, e.trail, _, hlaid.find?_eq, hspan,
    e.cutsOut, ?_, ?_,
    fun file => ?_, e.laidOut.find?_eq, rfl, rfl, ?_⟩
  · simp only [literalOf, Text.size_append]
    omega
  · intro hclosed
    rcases hlaid.layout.rest_cases with rfl | ⟨brace, behind, rfl, hbrace⟩
    · cases hclosed
    obtain ⟨next, hstop⟩ := hlaid.lexed.proper (l := brace) (by simp)
    have hchars := hstop.chars_of_punctuation (Or.inr rfl) hbrace
    refine ⟨flatten e.back, flatten behind, by simp [hchars], ?_⟩
    have htext := congrArg Text.size (hlaid.text_eq.symm.trans e.cutsOut.text_eq)
    simp only [Text.size_append, flatten_append] at htext ⊢
    simp only [literalOf, closingPart]
    omega
  · rw [hlaid.extract_eq, e.laidOut.extract_eq]
    exact ⟨rfl, rfl⟩
  · have hothers : ((literalOf Lexeme.name front marker body ps rest).keys.erase span).map
        (KeySpan.block text) =
        (e.before.filterMap member?).map Member.block ++
          (e.after.filterMap member?).map Member.block := by
      rw [erase_eq_eraseP_of_find? hspan, ← e.map_eraseP fun m => rfl,
        ← hlaid.map_block_keys, List.eraseP_map]
      rfl
    rw [hothers, e.laidOut.map_block_keys, List.filterMap_append, List.map_append]
    exact (List.Sublist.refl _).append (e.rejoined.sublist (fun m lead => rfl) e.gap_isGap)

/-- The last entry goes with its comment, the carriage return stays with its line
feed. -/
theorem cut?_frame_last :
    let text := "(\x7b\r\n a: {},\r\n b: {} // c\r\n\x7d)".toList
    let out := "(\x7b\r\n a: {},\r\n\x7d)".toList
    ∃ span kept lead entry trail tail, span.name = "b" ∧
      CutsOut text out span kept lead entry trail tail := by
  intro text out
  have hcut : cut? ['(', '{'] text "b" = some out := by decide +kernel
  obtain ⟨literal, -, span, kept, lead, entry, trail, tail, -, hspan, hcuts, -⟩ :=
    cut?_frame (by decide +kernel) hcut
  exact ⟨span, kept, lead, entry, trail, tail, by simpa using List.find?_some hspan, hcuts⟩

end StylePrune.Literal
