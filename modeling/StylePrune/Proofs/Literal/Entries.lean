import StylePrune.Proofs.Literal.Splice

/-!
# The texts of the keys

Offsets change with every cut; the texts they delimit do not.  Here the keys of
a literal are seen through the text: as blocks, from the name to the closing
brace of the value, and as entries, which include what trails the value.  Both
can be read off the members of the pieces without any offset.
-/

namespace StylePrune

/-- The name of a key, and its text up to the closing brace of the value. -/
def KeySpan.block (text : List Char) (span : KeySpan) : String × List Char :=
  (span.name, Text.between span.start span.stop text)

/-- The name of a key, and the text of its whole entry. -/
def KeySpan.entry (text : List Char) (span : KeySpan) : String × List Char :=
  (span.name, Text.between span.start span.entryEnd text)

/-- The entries of a literal of a text. -/
def StyleLiteral.entries (literal : StyleLiteral) (text : List Char) :
    List (String × List Char) :=
  literal.keys.map (KeySpan.entry text)

namespace Literal

def Member.block (m : Member) : String × List Char :=
  (m.key.name, flatten m.value)

def Member.entry (m : Member) : String × List Char :=
  (m.key.name, flatten m.value ++ Text.dropEndWhile Text.isAsciiBlank (flatten m.trail))

theorem Layout.pieces_ne_nil {body rest : List Lexeme} {ps : List (List Lexeme)}
    (h : Layout body ps rest) : ps ≠ [] := by
  cases h <;> simp

/-- What can be said of each member in its place can be said of all keys. -/
theorem map_spans {β : Type} {f : KeySpan → β} {g : Member → β} {closed : Bool}
    (text : List Char)
    (hfg : ∀ front p back m ended, text = front ++ flatten p ++ back →
      member? p = some m → (closed = true → ended = true) →
      f (m.span Lexeme.name (Text.size front) ended) = g m)
    {body rest : List Lexeme} {ps : List (List Lexeme)} (h : Layout body ps rest)
    {front back : List Char} (htext : text = front ++ flatten body ++ back) :
    (spans Lexeme.name (Text.size front) closed ps).map f =
      (ps.filterMap member?).map g := by
  induction h generalizing front with
  | @unclosed p d _ =>
      cases hm : member? p with
      | none => simp [spans, hm]
      | some m => simpa [spans, hm] using hfg front p back m _ htext hm (by simp)
  | @closed p _ _ _ _ =>
      cases hm : member? p with
      | none => simp [spans, hm]
      | some m => simpa [spans, hm] using hfg front p back m _ htext hm (by simp)
  | @comma p body rest ps _ hlayout ih =>
      have hps : ps.isEmpty = false := by simp [hlayout.pieces_ne_nil]
      have hnext : text = (front ++ flatten p ++ [',']) ++ flatten body ++ back := by
        simpa [separator] using htext
      have hsize : Text.size front + Text.size (flatten p) + 1 =
          Text.size (front ++ flatten p ++ [',']) := by
        simp only [Text.size_append]
        rfl
      have hback : text = front ++ flatten p ++ (',' :: flatten body ++ back) := by
        simpa using hnext
      rw [spans, hsize, List.map_append, ih hnext]
      cases hm : member? p with
      | none => simp [hm]
      | some m => simpa [hm, hps] using hfg front p _ m true hback hm (by simp)

theorem map_block_spans {body rest : List Lexeme} {ps : List (List Lexeme)} {closed : Bool}
    (h : Layout body ps rest) (front back : List Char) :
    (spans Lexeme.name (Text.size front) closed ps).map
        (KeySpan.block (front ++ flatten body ++ back)) =
      (ps.filterMap member?).map Member.block := by
  refine map_spans (front ++ flatten body ++ back) ?_ h rfl
  intro before p after m ended htext hm _
  obtain ⟨hp, -⟩ := member?_parts hm
  have hslice : front ++ flatten body ++ back =
      before ++ flatten m.lead ++ flatten m.value ++ (flatten m.trail ++ after) := by
    rw [htext, hp]
    simp
  simp only [KeySpan.block, Member.span, Member.block, hslice, Prod.mk.injEq, true_and]
  rw [← Text.size_append, Text.between_size]

theorem map_entry_spans {body rest : List Lexeme} {ps : List (List Lexeme)}
    (h : Layout body ps rest) (front back : List Char) :
    (spans Lexeme.name (Text.size front) true ps).map
        (KeySpan.entry (front ++ flatten body ++ back)) =
      (ps.filterMap member?).map Member.entry := by
  refine map_spans (front ++ flatten body ++ back) ?_ h rfl
  intro before p after m ended htext hm hended
  obtain ⟨hp, -⟩ := member?_parts hm
  obtain ⟨blanks, htrail, -⟩ :=
    Text.exists_dropEndWhile_append Text.isAsciiBlank (flatten m.trail)
  have hslice : front ++ flatten body ++ back =
      before ++ flatten m.lead ++
        (flatten m.value ++ Text.dropEndWhile Text.isAsciiBlank (flatten m.trail)) ++
        (blanks ++ after) := by
    rw [htext, hp]
    simp only [flatten_append, List.append_assoc]
    nth_rewrite 1 [htrail]
    simp only [List.append_assoc]
  simp only [KeySpan.entry, Member.span, Member.entry, hslice, hended, if_true,
    Prod.mk.injEq, true_and]
  rw [Nat.add_assoc, ← Text.size_append, ← Text.size_append, Text.between_size]

/-- The first key of a name is a member of the first piece with that name. -/
theorem exists_of_find?_spans {key : String} {pos : Nat} {closed : Bool}
    {ps : List (List Lexeme)} {span : KeySpan}
    (h : (spans Lexeme.name pos closed ps).find? (·.name == key) = some span) :
    ∃ before p after m, ps = before ++ p :: after ∧ member? p = some m ∧ m.key.name = key ∧
      (∀ n ∈ before.filterMap member?, n.key.name ≠ key) ∧
      span = m.span Lexeme.name (pos + Text.size (flatten (joined before)))
        (closed || !after.isEmpty) := by
  induction ps generalizing pos with
  | nil => cases h
  | cons p ps ih =>
      rw [spans, List.find?_append] at h
      by_cases hp : ∃ m, member? p = some m ∧ m.key.name = key
      · obtain ⟨m, hm, hkey⟩ := hp
        refine ⟨[], p, ps, m, rfl, hm, hkey, by simp, ?_⟩
        have hname : (m.span Lexeme.name pos (closed || !ps.isEmpty)).name = key := hkey
        have hfirst : m.span Lexeme.name pos (closed || !ps.isEmpty) = span := by
          simpa [hm, hname] using h
        simpa [joined] using hfirst.symm
      · have hskip : (((member? p).map fun m =>
            m.span Lexeme.name pos (closed || !ps.isEmpty)).toList.find?
              (·.name == key)) = none := by
          cases hm : member? p with
          | none => rfl
          | some m =>
              have hname : (m.span Lexeme.name pos (closed || !ps.isEmpty)).name ≠ key :=
                fun hkey => hp ⟨m, hm, hkey⟩
              simp [hname]
        rw [hskip, Option.none_or] at h
        obtain ⟨before, q, after, m, rfl, hm, hkey, hbefore, hspan⟩ := ih h
        refine ⟨p :: before, q, after, m, rfl, hm, hkey, ?_, ?_⟩
        · intro n hn
          rw [List.mem_filterMap] at hn
          obtain ⟨r, hr, hn⟩ := hn
          rcases List.mem_cons.mp hr with rfl | hr
          · exact fun hname => hp ⟨n, hn, hname⟩
          · exact hbefore n (List.mem_filterMap.mpr ⟨r, hr, hn⟩)
        · rw [hspan]
          simp [joined, size_separator, Nat.add_assoc]

end Literal

end StylePrune
