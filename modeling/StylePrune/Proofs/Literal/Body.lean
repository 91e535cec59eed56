import StylePrune.Proofs.Literal.Excision

/-!
# The body of a literal as a function of the text

A layout is a relation, but a text has only one: `bodyOf` reads the lexemes of the first
literal up to its closing brace, and `piecesOf` parts them at the commas outside all
inner braces.  Properties of literals that no offset tells can so be stated about texts.
In the other direction, the place of a piece among the others tells the offsets of its
entry (`LaidOut.entryAt`).
-/

namespace StylePrune.Literal

/-- The lexemes in front of the brace that closes the literal, with `d` inner braces
open. -/
def upToClosing : Nat → List Lexeme → List Lexeme
  | _, [] => []
  | d, l :: ls =>
    if l.kind = .closing ∧ d = 0 then []
    else l :: upToClosing ((l.depth? d).getD 0) ls

/-- Parts lexemes at the commas outside all braces, with `d` of them open. -/
def partAt : Nat → List Lexeme → List (List Lexeme)
  | _, [] => [[]]
  | d, l :: ls =>
    if l.kind = .comma ∧ d = 0 then
      [] :: partAt 0 ls
    else
      match partAt ((l.depth? d).getD 0) ls with
      | [] => [[l]]
      | p :: ps => (l :: p) :: ps

/-- The lexemes of the first literal's body. -/
def bodyOf (marker text : List Char) : List Lexeme :=
  match Text.splitFirst marker text with
  | some (_, back) => upToClosing 0 (lexemes back)
  | none => []

/-- The pieces of the first literal's body. -/
def piecesOf (marker text : List Char) : List (List Lexeme) :=
  partAt 0 (bodyOf marker text)

/-! ## One layout -/

theorem upToClosing_append {p : List Lexeme} {d e : Nat} (h : depthAfter d p = some e)
    (ls : List Lexeme) : upToClosing d (p ++ ls) = p ++ upToClosing e ls := by
  induction p generalizing d with
  | nil =>
      obtain rfl := Option.some.inj h
      rfl
  | cons l p ih =>
      rw [depthAfter_cons] at h
      obtain ⟨f, hf, hp⟩ := Option.bind_eq_some_iff.mp h
      have hstay : ¬(l.kind = .closing ∧ d = 0) := by
        rintro ⟨hkind, rfl⟩
        rw [Lexeme.depth?_eq_none_iff.mpr ⟨rfl, Or.inr hkind⟩] at hf
        cases hf
      rw [List.cons_append, upToClosing, if_neg hstay, hf, Option.getD_some, ih hp,
        List.cons_append]

theorem partAt_append {p : List Lexeme} {d e : Nat} (h : depthAfter d p = some e)
    {ls q : List Lexeme} {ps : List (List Lexeme)} (hls : partAt e ls = q :: ps) :
    partAt d (p ++ ls) = (p ++ q) :: ps := by
  induction p generalizing d with
  | nil =>
      obtain rfl := Option.some.inj h
      exact hls
  | cons l p ih =>
      rw [depthAfter_cons] at h
      obtain ⟨f, hf, hp⟩ := Option.bind_eq_some_iff.mp h
      have hstay : ¬(l.kind = .comma ∧ d = 0) := by
        rintro ⟨hkind, rfl⟩
        rw [Lexeme.depth?_eq_none_iff.mpr ⟨rfl, Or.inl hkind⟩] at hf
        cases hf
      rw [List.cons_append, partAt, if_neg hstay, hf, Option.getD_some, ih hp]
      rfl

theorem Layout.upToClosing_eq {body rest : List Lexeme} {ps : List (List Lexeme)}
    (h : Layout body ps rest) : upToClosing 0 (body ++ rest) = body := by
  induction h with
  | unclosed hd =>
      rw [upToClosing_append hd]
      exact List.append_nil _
  | closed hd hbrace =>
      rw [upToClosing_append hd, upToClosing, if_pos ⟨hbrace, rfl⟩, List.append_nil]
  | comma hd _ ih =>
      rw [List.append_assoc, upToClosing_append hd, List.cons_append, upToClosing,
        if_neg (by simp [separator])]
      have hdepth : (separator.depth? 0).getD 0 = 0 := rfl
      rw [hdepth, ih]

theorem Layout.partAt_eq {body rest : List Lexeme} {ps : List (List Lexeme)}
    (h : Layout body ps rest) : partAt 0 body = ps := by
  induction h with
  | unclosed hd => simpa using partAt_append hd (rfl : partAt _ [] = [[]])
  | closed hd _ => simpa using partAt_append hd (rfl : partAt _ [] = [[]])
  | comma hd _ ih =>
      have hcomma : ∀ ls, partAt 0 (separator :: ls) = [] :: partAt 0 ls :=
        fun ls => if_pos ⟨rfl, rfl⟩
      rw [partAt_append hd (hcomma _), List.append_nil, ih]

section LaidOut

variable {marker text front : List Char} {body rest : List Lexeme} {ps : List (List Lexeme)}

theorem LaidOut.bodyOf_eq (h : LaidOut marker text front body ps rest) :
    bodyOf marker text = body := by
  have hsplit := Text.splitFirst_of_firstAt h.first
  rw [← h.text_eq] at hsplit
  simp only [bodyOf, hsplit, lexemes_flatten h.lexed, h.layout.upToClosing_eq]

theorem LaidOut.piecesOf_eq (h : LaidOut marker text front body ps rest) :
    piecesOf marker text = ps := by
  rw [piecesOf, h.bodyOf_eq, h.layout.partAt_eq]

end LaidOut

/-! ## Pieces in their places -/

/-- Pieces with their commas in front. -/
def led (ps : List (List Lexeme)) : List Lexeme :=
  ps.flatMap fun p => separator :: p

theorem joined_append_led (ps : List (List Lexeme)) (p : List Lexeme)
    (qs : List (List Lexeme)) :
    separator :: (joined ps ++ p) ++ led qs = led (ps ++ p :: qs) := by
  induction ps with
  | nil => simp [joined, led]
  | cons q ps ih =>
      simp only [joined, led, List.flatMap_cons, List.cons_append, List.append_assoc,
        List.nil_append] at ih ⊢
      rw [ih]

theorem Layout.separator_cons_body {body rest : List Lexeme} {ps : List (List Lexeme)}
    (h : Layout body ps rest) : separator :: body = led ps := by
  induction h with
  | unclosed _ => simp [led]
  | closed _ _ => simp [led]
  | @comma p _ _ _ _ _ ih =>
      have hstep := congrArg (fun ls => separator :: p ++ ls) ih
      simpa [led] using hstep

theorem Layout.body_eq {body p rest : List Lexeme} {before after : List (List Lexeme)}
    (h : Layout body (before ++ p :: after) rest) :
    body = joined before ++ p ++ led after := by
  have hbody := h.separator_cons_body
  rw [← joined_append_led, List.cons_append] at hbody
  exact (List.cons.inj hbody).2

theorem find?_spans {key : String} {before after : List (List Lexeme)} {p : List Lexeme}
    {m : Member} (hm : member? p = some m) (hname : m.key.name = key)
    (hbefore : ∀ n ∈ before.filterMap member?, n.key.name ≠ key) (pos : Nat)
    (closed : Bool) :
    (spans Lexeme.name pos closed (before ++ p :: after)).find? (·.name == key) =
      some (m.span Lexeme.name (pos + Text.size (flatten (joined before)))
        (closed || !after.isEmpty)) := by
  induction before generalizing pos with
  | nil =>
      have hfirst : (m.span Lexeme.name pos (closed || !after.isEmpty)).name = key := hname
      simp [spans, hm, hfirst, joined]
  | cons q before ih =>
      have hskip : (((member? q).map fun n =>
          n.span Lexeme.name pos (closed || !(before ++ p :: after).isEmpty)).toList.find?
            (·.name == key)) = none := by
        cases hq : member? q with
        | none => rfl
        | some n =>
            have hother : (n.span Lexeme.name pos
                (closed || !(before ++ p :: after).isEmpty)).name ≠ key :=
              hbefore n (by simp [hq])
            simp only [Option.map_some, Option.toList_some, List.find?_singleton]
            simpa using hother
      rw [List.cons_append, spans, List.find?_append, hskip, Option.none_or, ih]
      · simp [joined, size_separator, Nat.add_assoc]
      · intro n hn
        exact hbefore n (by
          rw [List.mem_filterMap] at hn ⊢
          obtain ⟨r, hr, hrn⟩ := hn
          exact ⟨r, List.mem_cons_of_mem q hr, hrn⟩)

/-- The keys of a literal are the members among its pieces. -/
theorem mem_spans_iff {nameOf : Lexeme → String} {closed : Bool} {ps : List (List Lexeme)}
    {span : KeySpan} (pos : Nat) :
    span ∈ spans nameOf pos closed ps ↔ ∃ before p after m, ps = before ++ p :: after ∧
      member? p = some m ∧ span = m.span nameOf (pos + Text.size (flatten (joined before)))
        (closed || !after.isEmpty) := by
  induction ps generalizing pos with
  | nil => simp [spans]
  | cons p ps ih =>
      have hjoined : ∀ before,
          pos + Text.size (flatten p) + 1 + Text.size (flatten (joined before)) =
            pos + Text.size (flatten (joined (p :: before))) := by
        intro before
        simp only [joined, List.flatMap_cons, flatten_append, flatten_cons, flatten_nil,
          Text.size_append, size_separator, Text.size_nil]
        omega
      rw [spans, List.mem_append, ih]
      constructor
      · rintro (hhead | ⟨before, q, after, m, rfl, hm, rfl⟩)
        · obtain ⟨m, hm, rfl⟩ := Option.map_eq_some_iff.mp (Option.mem_toList.mp hhead)
          exact ⟨[], p, ps, m, rfl, hm, rfl⟩
        · exact ⟨p :: before, q, after, m, rfl, hm, by rw [hjoined]⟩
      · rintro ⟨before, q, after, m, hps, hm, rfl⟩
        cases before with
        | nil =>
            obtain ⟨rfl, rfl⟩ := List.cons.inj hps
            refine Or.inl (Option.mem_toList.mpr ?_)
            rw [hm]
            rfl
        | cons r before =>
            obtain ⟨rfl, rfl⟩ := List.cons.inj hps
            exact Or.inr ⟨before, q, after, m, rfl, hm, by rw [hjoined]⟩

theorem Layout.depthAfter_eq {body rest : List Lexeme} {ps : List (List Lexeme)}
    (h : Layout body ps rest) (hclosed : rest ≠ []) :
    ∀ p ∈ ps, depthAfter 0 p = some 0 := by
  induction h with
  | unclosed _ => exact (hclosed rfl).elim
  | closed hd _ => simpa using hd
  | comma hd _ ih => exact List.forall_mem_cons.mpr ⟨hd, ih hclosed⟩

/-! ## Where an entry stands -/

/-- The first entry of a name stands between two texts. -/
structure EntryAt (marker text : List Char) (key : String) (front entry back : List Char) :
    Prop where
  text_eq : text = front ++ entry ++ back
  found : ∃ literal span, find? marker text = some literal ∧ literal.key? key = some span ∧
    span.start = Text.size front ∧ span.entryEnd = Text.size (front ++ entry)

theorem EntryAt.cut?_eq {marker text front entry back : List Char} {key : String}
    (h : EntryAt marker text key front entry back) :
    cut? marker text key = some (closeGap front back) := by
  obtain ⟨literal, span, hfind, hspan, hstart, hend⟩ := h.found
  refine (cut?_eq_some_iff hfind).mpr ⟨span, hspan, ?_⟩
  rw [hstart, hend, h.text_eq, Text.after_size, List.append_assoc, Text.before_size]

theorem EntryAt.after_entryEnd {marker text front entry back : List Char} {key : String}
    (h : EntryAt marker text key front entry back) {literal : StyleLiteral} {span : KeySpan}
    (hfind : find? marker text = some literal) (hspan : literal.key? key = some span) :
    Text.after span.entryEnd text = back := by
  obtain ⟨literal', span', hfind', hspan', -, hend⟩ := h.found
  obtain rfl := Option.some.inj (hfind.symm.trans hfind')
  obtain rfl := Option.some.inj (hspan.symm.trans hspan')
  rw [hend, h.text_eq, Text.after_size]

/-- The white space that a member leaves over at the end of its piece. -/
def Member.Leaves (m : Member) (slack : List Char) : Prop :=
  flatten m.trail = Text.dropEndWhile Text.isAsciiBlank (flatten m.trail) ++ slack

theorem member?_flatten {p : List Lexeme} {m : Member} {slack : List Char}
    (hm : member? p = some m) (hslack : m.Leaves slack) :
    flatten p = flatten m.lead ++ (m.entry.2 ++ slack) := by
  obtain ⟨hp, -⟩ := member?_parts hm
  have hparts : flatten m.value ++ flatten m.trail = m.entry.2 ++ slack := by
    rw [Member.entry, List.append_assoc, ← hslack]
  rw [← hparts, hp, flatten_append, flatten_append, List.append_assoc]

theorem LaidOut.text_eq_entry {marker text front slack : List Char}
    {body rest p : List Lexeme} {before after : List (List Lexeme)} {m : Member}
    (h : LaidOut marker text front body (before ++ p :: after) rest)
    (hm : member? p = some m) (hslack : m.Leaves slack) :
    text = front ++ marker ++ flatten (joined before ++ m.lead) ++ m.entry.2 ++
      (slack ++ flatten (led after ++ rest)) := by
  rw [h.text_eq, h.layout.body_eq]
  simp only [flatten_append, member?_flatten hm hslack, List.append_assoc]

/-- The first piece of a name has the first entry of that name. -/
theorem LaidOut.entryAt {marker text front slack : List Char} {body rest p : List Lexeme}
    {before after : List (List Lexeme)} {m : Member} {key : String}
    (h : LaidOut marker text front body (before ++ p :: after) rest)
    (hclosed : rest ≠ []) (hm : member? p = some m) (hname : m.key.name = key)
    (hbefore : ∀ n ∈ before.filterMap member?, n.key.name ≠ key) (hslack : m.Leaves slack) :
    EntryAt marker text key (front ++ marker ++ flatten (joined before ++ m.lead))
      m.entry.2 (slack ++ flatten (led after ++ rest)) := by
  have hended : (!rest.isEmpty || !after.isEmpty) = true := by simp [hclosed]
  refine ⟨h.text_eq_entry hm hslack, _, _, h.find?_eq,
    find?_spans hm hname hbefore _ _, ?_, ?_⟩
  · simp only [Member.span, Text.size_append, flatten_append]
    omega
  · simp only [Member.span, Member.entry, hended, if_true, Text.size_append, flatten_append]
    omega

end StylePrune.Literal
