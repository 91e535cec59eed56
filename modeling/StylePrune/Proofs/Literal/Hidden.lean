import StylePrune.Proofs.Literal.Splice

/-!
# Members behind white space

The reader skips ASCII white space only.  Other white space at the beginning of
a piece is none of the lexemes a member may begin with, and hides what follows.
A cut, in contrast, takes the blank line behind a comma along, whatever white space
it holds, and the member below that line comes up.  Here it is told from the
pieces alone when this happens.
-/

namespace StylePrune.Literal

/-- A piece that begins with a blank line, not all of it ASCII, and is a member from the
end of that line on. -/
def HidesMember (p : List Lexeme) : Prop :=
  ∃ line q, p = singles line ++ q ∧ (∀ c ∈ line, Text.isBlank c = true ∧ c ≠ '\n') ∧
    (∃ c ∈ line, Text.isAsciiBlank c = false) ∧ (flatten q).head? = some '\n' ∧
    (member? q).isSome = true

/-- A piece with no ASCII white space at its end but spaces and tabs, so that its comma
stands on its last line. -/
def EndsInLine (p : List Lexeme) : Prop :=
  Text.dropEndWhile Text.isTab (flatten p) = Text.dropEndWhile Text.isAsciiBlank (flatten p)

/-- With the entry in `p` goes the blank line that hides a member in the next piece. -/
def Uncovers (p next : List Lexeme) : Prop :=
  EndsInLine p ∧ HidesMember next

/-! ## White space in front of a piece -/

theorem singles_injective {cs ds : List Char} (h : singles cs = singles ds) : cs = ds := by
  rw [← flatten_singles cs, h, flatten_singles]

theorem isAsciiBlank_of_isGap_singles {cs : List Char}
    (h : ∀ l ∈ singles cs, l.isGap = true) : ∀ c ∈ cs, Text.isAsciiBlank c = true := by
  intro c hc
  have hgap := h ⟨singleKind c, [c]⟩ (List.mem_map.mpr ⟨c, hc, rfl⟩)
  by_contra hascii
  have hkind : singleKind c = .opening ∨ singleKind c = .closing ∨ singleKind c = .comma ∨
      singleKind c = .colon ∨ singleKind c = .other := by
    unfold singleKind
    grind
  rcases hkind with hkind | hkind | hkind | hkind | hkind <;>
    simp [Lexeme.isGap, hkind] at hgap

theorem singleKind_not_name (c : Char) : singleKind c ≠ .word ∧ singleKind c ≠ .quoted := by
  unfold singleKind
  grind

/-- White space in front of a piece is a gap, or the piece is no member. -/
theorem member?_singles_cases (cs : List Char) :
    (∀ l ∈ singles cs, l.isGap = true) ∨ ∀ q, member? (singles cs ++ q) = none := by
  rcases gap_cases (singles cs) with hgap | ⟨gap, l, rest, hsplit, hgap, hl⟩
  · exact Or.inl hgap
  · refine Or.inr fun q => ?_
    have hname : l.isName = false := by
      have hmem : l ∈ singles cs := by simp [hsplit]
      obtain ⟨c, -, rfl⟩ := List.mem_map.mp hmem
      simp [Lexeme.isName, singleKind_not_name c]
    have hnone : member? (l :: (rest ++ q)) = none := by
      apply member?_eq_none
      rintro key colon brace tail hsignificant ⟨hkey, -⟩
      rw [significant_cons hl] at hsignificant
      obtain ⟨rfl, -⟩ := List.cons.inj hsignificant
      simp [hname] at hkey
    rw [hsplit, List.append_assoc, List.cons_append, member?_gap_append hgap, hnone]
    rfl

theorem member?_singles_append {cs : List Char} (h : ∃ c ∈ cs, Text.isAsciiBlank c = false)
    (q : List Lexeme) : member? (singles cs ++ q) = none := by
  obtain ⟨c, hc, hascii⟩ := h
  rcases member?_singles_cases cs with hgap | hnone
  · rw [isAsciiBlank_of_isGap_singles hgap c hc] at hascii
    cases hascii
  · exact hnone q

theorem isSome_member?_gap_append {gap : List Lexeme} (h : ∀ l ∈ gap, l.isGap = true)
    (q : List Lexeme) : (member? (gap ++ q)).isSome = (member? q).isSome := by
  rw [member?_gap_append h, Option.isSome_map]

/-- White space in front of a piece can be taken away without a change, if the piece is
no member even so or the white space is a gap. -/
theorem singles_append_cases {cs : List Char} {q : List Lexeme}
    (h : ¬((∃ c ∈ cs, Text.isAsciiBlank c = false) ∧ (member? q).isSome = true)) :
    member? q = none ∧ member? (singles cs ++ q) = none ∨
      ∀ l ∈ singles cs, l.isGap = true := by
  by_cases hascii : ∃ c ∈ cs, Text.isAsciiBlank c = false
  · refine Or.inl ⟨?_, member?_singles_append hascii q⟩
    simpa [hascii] using h
  · have hcs : ∀ c ∈ cs, Text.isAsciiBlank c = true := by simpa using hascii
    exact Or.inr fun l hl => isGap_of_mem_singles hcs hl

/-! ## Hidden members -/

theorem HidesMember.member?_eq_none {p : List Lexeme} (h : HidesMember p) :
    member? p = none := by
  obtain ⟨line, q, rfl, -, hascii, -, -⟩ := h
  exact member?_singles_append hascii q

/-- A gap in front of a hidden member belongs to the line that hides it. -/
theorem HidesMember.of_gap_append {gap q : List Lexeme} (h : HidesMember (gap ++ q))
    (hgap : ∀ l ∈ gap, l.isGap = true) : HidesMember q ∧ '\n' ∉ flatten gap := by
  obtain ⟨line, q', hsplit, hblank, ⟨c, hc, hascii⟩, hhead, hmember⟩ := h
  rcases List.append_eq_append_iff.mp hsplit with ⟨mid, hline, rfl⟩ | ⟨mid, rfl, -⟩
  · obtain ⟨line₁, line₂, rfl, rfl, rfl⟩ := List.map_eq_append_iff.mp hline
    have hother : c ∈ line₂ := by
      rcases List.mem_append.mp hc with hc | hc
      · rw [isAsciiBlank_of_isGap_singles hgap c hc] at hascii
        cases hascii
      · exact hc
    refine ⟨⟨line₂, q', rfl, fun d hd => hblank d (by simp [hd]),
      ⟨c, hother, hascii⟩, hhead,
      hmember⟩, fun hnewline => ?_⟩
    have hnewline : '\n' ∈ flatten (singles line₁) := hnewline
    rw [flatten_singles] at hnewline
    exact (hblank _ (by simp [hnewline])).2 rfl
  · have hgap' : ∀ l ∈ singles line, l.isGap = true := fun l hl => hgap l (by simp [hl])
    rw [isAsciiBlank_of_isGap_singles hgap' c hc] at hascii
    cases hascii

/-- The line that hides a member is the first line of the text. -/
theorem HidesMember.firstLine {p : List Lexeme} (h : HidesMember p) (back : List Char) :
    ∃ line below q, FirstLine (flatten p ++ back) line below ∧ p = singles line ++ q ∧
      (∀ c ∈ line, Text.isBlank c = true) ∧ (∃ c ∈ line, Text.isAsciiBlank c = false) ∧
      (member? q).isSome = true := by
  obtain ⟨line, q, rfl, hblank, hascii, hhead, hmember⟩ := h
  obtain ⟨rest, hrest⟩ := List.head?_eq_some_iff.mp hhead
  refine ⟨line, flatten q ++ back, q,
    ⟨by simp, fun hmem => (hblank _ hmem).2 rfl, Or.inr ?_⟩,
    rfl, fun c hc => (hblank c hc).1, hascii, hmember⟩
  exact ⟨rest ++ back, by rw [hrest, List.cons_append]⟩

theorem Layout.exists_append {body p rest : List Lexeme} {ps : List (List Lexeme)}
    (h : Layout body (p :: ps) rest) : ∃ behind, body = p ++ behind := by
  cases h with
  | unclosed _ => exact ⟨[], by simp⟩
  | closed _ _ => exact ⟨[], by simp⟩
  | comma _ _ => exact ⟨_, rfl⟩

theorem exists_not_isBlank_of_member? {p : List Lexeme} (h : (member? p).isSome = true)
    (hproper : ∀ l ∈ p, ∃ next, StopsAt l next) :
    ∃ c ∈ flatten p, Text.isBlank c = false := by
  obtain ⟨m, hm⟩ := Option.isSome_iff_exists.mp h
  obtain ⟨hp, -⟩ := member?_parts hm
  obtain ⟨c, inner, hvalue, -⟩ := member?_flatten_value hm hproper
  refine ⟨'}', ?_, by decide⟩
  rw [hp, flatten_append, flatten_append, hvalue]
  simp

section Covered

variable {body q rest : List Lexeme} {after : List (List Lexeme)} {line below : List Char}

/-- A first piece hides a member if its first line is blank, not all of it ASCII, and
the rest of it is a member. -/
theorem Layout.hidesMember_iff (h : Layout body ((singles line ++ q) :: after) rest)
    (hlexed : Lexed (body ++ rest)) (hline : FirstLine (flatten (body ++ rest)) line below)
    (hblank : ∀ c ∈ line, Text.isBlank c = true) :
    HidesMember (singles line ++ q) ↔
      (∃ c ∈ line, Text.isAsciiBlank c = false) ∧ (member? q).isSome = true := by
  obtain ⟨behind, rfl⟩ := h.exists_append
  have hflatten : flatten (singles line ++ q ++ behind ++ rest) =
      flatten (singles line ++ q) ++ flatten (behind ++ rest) := by
    rw [List.append_assoc, flatten_append]
  constructor
  · intro hhides
    obtain ⟨line', below', q', hline', hq, -, hascii, hmember⟩ :=
      hhides.firstLine (flatten (behind ++ rest))
    rw [← hflatten] at hline'
    obtain ⟨rfl, -⟩ := hline.unique hline'
    rw [List.append_cancel_left hq]
    exact ⟨hascii, hmember⟩
  · rintro ⟨hascii, hmember⟩
    have hproper : ∀ l ∈ q, ∃ next, StopsAt l next :=
      fun l hl => hlexed.proper (by simp [hl])
    have hbelow : flatten q ++ flatten (behind ++ rest) = below := by
      have htext := hline.text_eq
      rw [hflatten, flatten_append, flatten_singles, List.append_assoc] at htext
      exact List.append_cancel_left htext
    refine ⟨line, q, rfl, fun c hc => ⟨hblank c hc, ?_⟩, hascii, ?_, hmember⟩
    · rintro rfl
      exact hline.newline hc
    · obtain ⟨c, hc, -⟩ := exists_not_isBlank_of_member? hmember hproper
      have hhead : (flatten q).head? = below.head? := by
        rw [← hbelow, List.head?_append_of_ne_nil _ (List.ne_nil_of_mem hc)]
      rcases hline.below with rfl | ⟨rest, rfl⟩
      · simp [(List.append_eq_nil_iff.mp hbelow).1] at hc
      · exact hhead

theorem hidden_append_iff {ending : List Char}
    (hending : ∀ c ∈ ending, Text.isAsciiBlank c = true) :
    ((∃ c ∈ line ++ ending, Text.isAsciiBlank c = false) ∧ (member? q).isSome = true) ↔
      (∃ c ∈ line, Text.isAsciiBlank c = false) ∧
        (member? (singles ending ++ q)).isSome = true := by
  rw [isSome_member?_gap_append fun l hl => isGap_of_mem_singles hending hl]
  refine and_congr_left fun _ => ⟨?_, ?_⟩
  · rintro ⟨c, hc, hascii⟩
    rcases List.mem_append.mp hc with hc | hc
    · exact ⟨c, hc, hascii⟩
    · rw [hending c hc] at hascii
      cases hascii
  · rintro ⟨c, hc, hascii⟩
    exact ⟨c, List.mem_append_left _ hc, hascii⟩

/-- Among the white space that a cut takes off the next piece there is other than
ASCII, and a member below, exactly if the piece hides that member. -/
theorem Layout.hidesMember_singles_iff {blanks : List Char}
    (h : Layout body ((singles blanks ++ q) :: after) rest) (hlexed : Lexed (body ++ rest))
    (hline : FirstLine (flatten (body ++ rest)) line below)
    (hblanks : (∃ c ∈ line, Text.isBlank c = false) ∧ (∀ c ∈ blanks, Text.isTab c = true) ∨
      (∀ c ∈ line, Text.isBlank c = true) ∧ ∃ ending,
        (∀ c ∈ ending, Text.isAsciiBlank c = true) ∧
          (blanks = line ++ ending ∨ line = blanks ++ ending)) :
    HidesMember (singles blanks ++ q) ↔
      (∃ c ∈ blanks, Text.isAsciiBlank c = false) ∧ (member? q).isSome = true := by
  rcases hblanks with ⟨⟨c, hc, hother⟩, htabs⟩ | ⟨hblank, ending, hending, hends⟩
  · constructor
    · intro hhides
      obtain ⟨behind, rfl⟩ := h.exists_append
      obtain ⟨line', below', -, hline', -, hblank, -⟩ :=
        hhides.firstLine (flatten (behind ++ rest))
      rw [← flatten_append, ← List.append_assoc] at hline'
      obtain ⟨rfl, -⟩ := hline.unique hline'
      rw [hblank c hc] at hother
      cases hother
    · rintro ⟨⟨d, hd, hascii⟩, -⟩
      rw [Text.isAsciiBlank_of_isTab (htabs d hd)] at hascii
      cases hascii
  · rcases hends with rfl | rfl
    · rw [singles_append, List.append_assoc] at h ⊢
      rw [h.hidesMember_iff hlexed hline hblank, hidden_append_iff hending]
    · -- the ending of the line is left in the next piece
      have hlexemes : body ++ rest = singles (blanks ++ ending) ++ lexemes below := by
        rw [← lexemes_flatten hlexed, hline.text_eq, lexemes_eq_iff]
        refine ⟨by rw [flatten_append, flatten_singles, flatten_lexemes], ?_⟩
        exact lexed_singles_append hblank (lexed_lexemes below)
      obtain ⟨b, q', rfl, hq, -, -⟩ :=
        h.split_flat (fun l hl => isFlat_of_mem_singles hblank hl) hlexemes
      rw [hq] at h ⊢
      rw [h.hidesMember_iff hlexed hline hblank, hidden_append_iff hending]
      rw [singles_append, List.append_assoc] at hq
      rw [List.append_cancel_left hq]

end Covered

/-! ## The end of a piece -/

theorem endsInLine_append_iff {p : List Lexeme} (h : (member? p).isSome = true)
    (hproper : ∀ l ∈ p, ∃ next, StopsAt l next) (front : List Lexeme) :
    EndsInLine (front ++ p) ↔ EndsInLine p := by
  obtain ⟨c, hc, hblank⟩ := exists_not_isBlank_of_member? h hproper
  have hascii : Text.isAsciiBlank c = false := by
    by_contra hascii
    rw [isBlank_of_isAsciiBlank (by simpa using hascii)] at hblank
    cases hblank
  have htab : Text.isTab c = false := by
    by_contra htab
    rw [Text.isAsciiBlank_of_isTab (by simpa using htab)] at hascii
    cases hascii
  rw [EndsInLine, EndsInLine, flatten_append,
    Text.dropEndWhile_append_of_exists ⟨c, hc, htab⟩,
    Text.dropEndWhile_append_of_exists ⟨c, hc, hascii⟩, List.append_cancel_left_eq]

theorem endsInLine_iff {p : List Lexeme} {front blanks : List Char}
    (hp : flatten p = front ++ blanks) (hblanks : ∀ c ∈ blanks, Text.isAsciiBlank c = true)
    (hfront : ∀ c, front.getLast? = some c → Text.isAsciiBlank c = false) :
    EndsInLine p ↔ ∀ c ∈ blanks, Text.isTab c = true := by
  rw [EndsInLine, hp, Text.dropEndWhile_append_of_all hblanks,
    Text.dropEndWhile_eq_self_of_last hfront]
  constructor
  · intro h
    obtain ⟨tabs, hsplit, htabs⟩ :=
      Text.exists_dropEndWhile_append Text.isTab (front ++ blanks)
    rw [h] at hsplit
    rw [List.append_cancel_left hsplit]
    exact htabs
  · intro htabs
    rw [Text.dropEndWhile_append_of_all htabs]
    refine Text.dropEndWhile_eq_self_of_last fun c hc => ?_
    by_contra htab
    have hascii := hfront c hc
    rw [Text.isAsciiBlank_of_isTab (by simpa using htab)] at hascii
    cases hascii

end StylePrune.Literal
