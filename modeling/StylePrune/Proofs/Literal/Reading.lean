import StylePrune.Proofs.Literal.Pieces
import StylePrune.Proofs.Text.Search

/-!
# The reader of literals finds the members of the pieces

The reader keeps a state while it goes over the lexemes once.  Within one piece
that state only moves forward: white space and comments leave it alone, an
unexpected lexeme makes it indifferent to the rest of the piece, and the brace
that closes the value of a member adds one key.  `Scan.hasRead_piece` collects
this for a whole piece, `readEntries_of_layout` follows by induction on the
pieces, and `find?_eq_some_iff` says it of texts.
-/

namespace StylePrune.Literal

namespace Scan

/-- The state behind a run of lexemes that begins at `pos`. -/
def run (s : Scan) (pos : Nat) : List Lexeme → Scan
  | [] => s
  | l :: ls => (s.step pos l).run (pos + Text.size l.chars) ls

@[simp]
theorem run_nil (s : Scan) (pos : Nat) : s.run pos [] = s := rfl

@[simp]
theorem run_cons (s : Scan) (pos : Nat) (l : Lexeme) (ls : List Lexeme) :
    s.run pos (l :: ls) = (s.step pos l).run (pos + Text.size l.chars) ls := rfl

theorem run_append (s : Scan) (pos : Nat) (ls ms : List Lexeme) :
    s.run pos (ls ++ ms) =
      (s.run pos ls).run (pos + Text.size (flatten ls)) ms := by
  induction ls generalizing s pos with
  | nil => simp
  | cons l ls ih => simp [ih, Nat.add_assoc]

/-! ## Single lexemes

The effect of a lexeme apart from the edge, by where it stands: inside the braces
of a value, or between them. -/

/-- Inside braces only braces count. -/
theorem read_nested {s : Scan} {d e : Nat} {l : Lexeme} (hs : s.depth = d + 2)
    (hkind : l.kind ≠ .closing) (hl : l.depth? (d + 1) = some e) (pos : Nat) :
    s.read pos l = { s with depth := e + 1 } := by
  obtain ⟨depth, entry, openKey, trailing, edge, found⟩ := s
  obtain rfl : depth = d + 2 := hs
  rw [eq_comm] at hl
  cases h : l.kind <;>
    simp_all [Lexeme.depth?, read, readName, readOther, openBrace, readComma, readColon]

theorem read_closing_nested {s : Scan} {d : Nat} {l : Lexeme} (hs : s.depth = d + 3)
    (hkind : l.kind = .closing) (pos : Nat) :
    s.read pos l = { s with depth := d + 2 } := by
  simp [read, hkind, closeBrace, hs]

/-- The brace that closes a value adds its key. -/
theorem read_closing_key {s : Scan} {l : Lexeme} {name : String} {start : Nat}
    (hs : s.depth = 2) (hkey : s.openKey = some (name, start))
    (hkind : l.kind = .closing) (pos : Nat) :
    s.read pos l =
      { s with
        depth := 1
        openKey := none
        trailing := true
        found := ⟨name, start, pos + 1, pos + 1⟩ :: s.found } := by
  simp [read, hkind, closeBrace, hs, hkey]

theorem read_closing_other {s : Scan} {l : Lexeme} (hs : s.depth = 2)
    (hkey : s.openKey = none) (hkind : l.kind = .closing) (pos : Nat) :
    s.read pos l = { s with depth := 1 } := by
  simp [read, hkind, closeBrace, hs, hkey]

/-- The kind of lexeme that takes an entry a step towards `name: {`. -/
def Awaits : Entry → Lexeme → Prop
  | .key, l => l.isName = true
  | .name _ _, l => l.kind = .colon
  | .value _ _, l => l.kind = .opening
  | .other, _ => False

/-- Between braces, any other lexeme spoils the entry. -/
theorem read_unexpected {s : Scan} {e : Nat} {l : Lexeme} (hs : s.depth = 1)
    (hgap : l.isGap = false) (hawait : ¬Awaits s.entry l) (hl : l.depth? 0 = some e)
    (pos : Nat) : s.read pos l = { s with entry := .other, depth := e + 1 } := by
  obtain ⟨depth, entry, openKey, trailing, edge, found⟩ := s
  obtain rfl : depth = 1 := hs
  cases h : l.kind <;> cases entry <;>
    simp_all [Lexeme.depth?, Lexeme.isGap, Lexeme.isName, Awaits, read, readName,
      readOther, openBrace, readColon]

theorem read_name {s : Scan} {l : Lexeme} (hs : s.depth = 1) (hentry : s.entry = .key)
    (hl : l.isName = true) (pos : Nat) :
    s.read pos l = { s with entry := .name l.name pos } := by
  simp only [Lexeme.isName, Bool.or_eq_true, decide_eq_true_eq] at hl
  rcases hl with hl | hl <;> simp [read, readName, hl, hs, hentry, Lexeme.name]

theorem read_colon {s : Scan} {l : Lexeme} {name : String} {start : Nat}
    (hs : s.depth = 1) (hentry : s.entry = .name name start) (hl : l.kind = .colon)
    (pos : Nat) : s.read pos l = { s with entry := .value name start } := by
  simp [read, readColon, hl, hs, hentry]

theorem read_value {s : Scan} {l : Lexeme} {name : String} {start : Nat}
    (hs : s.depth = 1) (hentry : s.entry = .value name start)
    (hl : l.kind = .opening) (pos : Nat) :
    s.read pos l =
      { s with depth := 2, entry := .other, openKey := some (name, start) } := by
  simp [read, openBrace, hl, hs, hentry]

theorem read_gap {s : Scan} {l : Lexeme} (h : l.isGap = true) (pos : Nat) :
    s.read pos l = s := by
  simp only [Lexeme.isGap, Bool.or_eq_true, decide_eq_true_eq] at h
  rcases h with h | h <;> simp [read, h]

/-! ## Runs of lexemes

States are compared up to their edge, which is looked at separately. -/

/-- A state with another edge. -/
def withEdge (s : Scan) (edge : Nat) : Scan :=
  { s with edge := edge }

/-- Two states that differ at most in their edge. -/
def Agrees (s t : Scan) : Prop :=
  ∃ edge, s = t.withEdge edge

theorem step_eq (s : Scan) (pos : Nat) (l : Lexeme) :
    s.step pos l = (s.read pos l).withEdge (s.edgeAfter pos l) := rfl

theorem Agrees.step {s t : Scan} {pos : Nat} {l : Lexeme} (h : s.read pos l = t) :
    (s.step pos l).Agrees t :=
  ⟨s.edgeAfter pos l, by rw [step_eq, h]⟩

theorem run_gap {gap : List Lexeme} (h : ∀ l ∈ gap, l.isGap = true) (s : Scan)
    (pos : Nat) : (s.run pos gap).Agrees s := by
  induction gap generalizing s pos with
  | nil => exact ⟨s.edge, rfl⟩
  | cons l gap ih =>
      obtain ⟨e, he⟩ := Agrees.step (s.read_gap (h l (by simp)) pos)
      obtain ⟨f, hf⟩ := ih (fun k hk => h k (by simp [hk])) (s.step pos l)
        (pos + Text.size l.chars)
      exact ⟨f, by rw [run_cons, hf, he]; rfl⟩

/-- The reader is indifferent to the rest of the piece, and `d` braces are open
in it. -/
structure Idle (s : Scan) (d : Nat) : Prop where
  depth : s.depth = d + 1
  entry : s.entry = .other
  openKey : s.openKey = none

theorem read_idle {s : Scan} {d e : Nat} (h : s.Idle d) {l : Lexeme}
    (hl : l.depth? d = some e) (pos : Nat) :
    s.read pos l = { s with depth := e + 1 } := by
  by_cases hkind : l.kind = .closing
  · cases d with
    | zero => simp [Lexeme.depth?, hkind] at hl
    | succ d =>
        obtain rfl : d = e := by simpa [Lexeme.depth?, hkind] using hl
        cases d with
        | zero => exact read_closing_other h.depth h.openKey hkind pos
        | succ d => exact read_closing_nested h.depth hkind pos
  · cases d with
    | zero =>
        by_cases hgap : l.isGap = true
        · obtain rfl : 0 = e := by simpa [Lexeme.depth?_of_isGap hgap] using hl
          rw [read_gap hgap, ← h.depth]
        · have hother : ¬Awaits s.entry l := by simp [h.entry, Awaits]
          rw [read_unexpected h.depth (by simpa using hgap) hother hl, ← h.entry]
    | succ d => exact read_nested h.depth hkind hl pos

theorem run_idle {ls : List Lexeme} {s : Scan} {d e : Nat} (h : s.Idle d)
    (hls : depthAfter d ls = some e) (pos : Nat) :
    (s.run pos ls).Agrees { s with depth := e + 1 } := by
  induction ls generalizing s d pos with
  | nil =>
      obtain rfl : d = e := by simpa using hls
      exact ⟨s.edge, by rw [run_nil, ← h.depth]; rfl⟩
  | cons l ls ih =>
      obtain ⟨c, hl, hls⟩ := Option.bind_eq_some_iff.mp hls
      obtain ⟨a, ha⟩ := Agrees.step (read_idle h hl pos)
      have hidle : (s.step pos l).Idle c := by
        rw [ha]
        exact ⟨rfl, h.entry, h.openKey⟩
      obtain ⟨b, hb⟩ := ih hidle hls (pos + Text.size l.chars)
      exact ⟨b, by rw [run_cons, hb, ha]; rfl⟩

theorem depthAfter_gap_cons {gap : List Lexeme} (h : ∀ l ∈ gap, l.isGap = true) {l : Lexeme}
    {rest : List Lexeme} {d : Nat} (hd : depthAfter 0 (gap ++ l :: rest) = some d) :
    ∃ e, l.depth? 0 = some e ∧ depthAfter e rest = some d := by
  rw [depthAfter_append, depthAfter_gap h, Option.bind_some, depthAfter_cons] at hd
  exact Option.bind_eq_some_iff.mp hd

theorem run_gap_cons {gap : List Lexeme} (h : ∀ l ∈ gap, l.isGap = true) (s : Scan)
    (pos : Nat) (l : Lexeme) (rest : List Lexeme) :
    ∃ a b, s.run pos (gap ++ l :: rest) =
      (((s.withEdge a).read (pos + Text.size (flatten gap)) l).withEdge b).run
        (pos + Text.size (flatten gap) + Text.size l.chars) rest := by
  obtain ⟨a, ha⟩ := run_gap h s pos
  exact ⟨a, _, by rw [run_append, ha, run_cons, step_eq]⟩

/-- Once a lexeme is not the awaited one, the rest of the piece adds nothing. -/
theorem run_unexpected {s : Scan} {gap rest : List Lexeme} {l : Lexeme} {d : Nat}
    (hs : s.depth = 1) (hkey : s.openKey = none) (hgap : ∀ k ∈ gap, k.isGap = true)
    (hl : l.isGap = false) (hawait : ¬Awaits s.entry l)
    (hd : depthAfter 0 (gap ++ l :: rest) = some d) (pos : Nat) :
    (s.run pos (gap ++ l :: rest)).Agrees { s with entry := .other, depth := d + 1 } := by
  obtain ⟨e, he, hrest⟩ := depthAfter_gap_cons hgap hd
  obtain ⟨a, b, hrun⟩ := run_gap_cons hgap s pos l rest
  rw [hrun, read_unexpected (s := s.withEdge a) hs hl hawait he]
  have hidle :
      (withEdge { s.withEdge a with entry := .other, depth := e + 1 } b).Idle e :=
    ⟨rfl, rfl, hkey⟩
  obtain ⟨c, hc⟩ := run_idle hidle hrest _
  exact ⟨c, hc⟩

/-! ## Values -/

/-- The reader is in the value of a key, with `d` more braces open. -/
structure InValue (s : Scan) (d : Nat) (name : String) (start : Nat) : Prop where
  depth : s.depth = d + 2
  entry : s.entry = .other
  openKey : s.openKey = some (name, start)

/-- A lexeme that does not close the value only changes the depth. -/
theorem read_inValue {s : Scan} {d e : Nat} {name : String} {start : Nat}
    (h : s.InValue d name start) {l : Lexeme} (hl : l.depth? (d + 1) = some e)
    (hclose : ¬(l.kind = .closing ∧ d + 1 = 1)) (pos : Nat) :
    ∃ c, e = c + 1 ∧ s.read pos l = { s with depth := c + 2 } := by
  by_cases hkind : l.kind = .closing
  · obtain ⟨c, rfl⟩ : ∃ c, d = c + 1 := by
      cases d with
      | zero => exact (hclose ⟨hkind, rfl⟩).elim
      | succ c => exact ⟨c, rfl⟩
    obtain rfl : c + 1 = e := by simpa [Lexeme.depth?, hkind] using hl
    exact ⟨c, rfl, read_closing_nested h.depth hkind pos⟩
  · have hpos : e ≠ 0 := by
      rintro rfl
      cases hk : l.kind <;> simp_all [Lexeme.depth?]
    obtain ⟨c, rfl⟩ := Nat.exists_eq_succ_of_ne_zero hpos
    exact ⟨c, rfl, read_nested h.depth hkind hl pos⟩

/-- The brace that closes a value adds its key, whatever the value holds. -/
theorem run_value {ls value trail : List Lexeme} {s : Scan} {d : Nat} {name : String}
    {start : Nat} (h : s.InValue d name start)
    (hproper : ∀ l ∈ ls, l.kind = .closing → Text.size l.chars = 1)
    (hsplit : splitValue (d + 1) ls = some (value, trail)) (pos : Nat) :
    (s.run pos value).Agrees
      { s with
        depth := 1
        openKey := none
        trailing := true
        found := ⟨name, start, pos + Text.size (flatten value),
          pos + Text.size (flatten value)⟩ :: s.found } := by
  induction ls generalizing s d pos value with
  | nil => simp [splitValue] at hsplit
  | cons l ls ih =>
      rcases splitValue_cons_cases hsplit with
        ⟨⟨hkind, hd⟩, rfl, rfl⟩ | ⟨hclose, e, rest, he, hrest, rfl⟩
      · obtain rfl : d = 0 := by omega
        have hsize : Text.size l.chars = 1 := hproper l (by simp) hkind
        obtain ⟨a, ha⟩ := Agrees.step (read_closing_key h.depth h.openKey hkind pos)
        exact ⟨a, by simp [ha, hsize, withEdge]⟩
      · obtain ⟨c, rfl, hread⟩ := read_inValue h he hclose pos
        obtain ⟨a, ha⟩ := Agrees.step hread
        have hin : (s.step pos l).InValue c name start := by
          rw [ha]
          exact ⟨rfl, h.entry, h.openKey⟩
        obtain ⟨b, hb⟩ := ih hin (fun k hk => hproper k (by simp [hk])) hrest
          (pos + Text.size l.chars)
        exact ⟨b, by rw [run_cons, hb, ha]; simp [withEdge, Nat.add_assoc]⟩

/-- A value that is not closed adds nothing. -/
theorem run_openValue {ls : List Lexeme} {s : Scan} {d e : Nat} {name : String}
    {start : Nat} (h : s.InValue d name start) (hsplit : splitValue (d + 1) ls = none)
    (hd : depthAfter (d + 1) ls = some e) (pos : Nat) :
    e ≠ 0 ∧ (s.run pos ls).Agrees { s with depth := e + 1 } := by
  induction ls generalizing s d pos with
  | nil =>
      obtain rfl : d + 1 = e := by simpa using hd
      exact ⟨by omega, s.edge, by rw [run_nil, ← h.depth]; rfl⟩
  | cons l ls ih =>
      obtain ⟨c, hl, hls⟩ := Option.bind_eq_some_iff.mp hd
      rw [splitValue] at hsplit
      split at hsplit
      · cases hsplit
      · rename_i hclose
        rw [hl, Option.bind_some, Option.map_eq_none_iff] at hsplit
        obtain ⟨c, rfl, hread⟩ := read_inValue h hl hclose pos
        obtain ⟨a, ha⟩ := Agrees.step hread
        have hin : (s.step pos l).InValue c name start := by
          rw [ha]
          exact ⟨rfl, h.entry, h.openKey⟩
        obtain ⟨hpos, b, hb⟩ := ih hin hsplit hls (pos + Text.size l.chars)
        exact ⟨hpos, b, by rw [run_cons, hb, ha]; rfl⟩

/-! ## Whole pieces -/

/-- The reader stands at the beginning of a piece. -/
structure Fresh (s : Scan) : Prop where
  depth : s.depth = 1
  entry : s.entry = .key
  openKey : s.openKey = none
  trailing : s.trailing = false

/-- The reader has read a piece that leaves `d` braces open, and to the keys
`found` before it has added the piece's member, if it is one. -/
structure HasRead (s : Scan) (pos d : Nat) (m : Option Member) (found : List KeySpan) :
    Prop where
  depth : s.depth = d + 1
  trailing : s.trailing = m.isSome
  openKey : d = 0 → s.openKey = none
  found : s.found = (m.map fun m => m.span Lexeme.name pos false).toList ++ found

theorem hasRead_none {s t : Scan} {pos d : Nat} {found : List KeySpan} (h : s.Agrees t)
    (hdepth : t.depth = d + 1) (htrailing : t.trailing = false)
    (hkey : d = 0 → t.openKey = none) (hfound : t.found = found) :
    s.HasRead pos d none found := by
  obtain ⟨edge, rfl⟩ := h
  exact ⟨hdepth, htrailing, hkey, hfound⟩

/-- White space and comments in front of a piece only move its member. -/
theorem hasRead_gap_append {s : Scan} {pos d : Nat} {found : List KeySpan}
    {gap p : List Lexeme} (hgap : ∀ l ∈ gap, l.isGap = true)
    (h : s.HasRead (pos + Text.size (flatten gap)) d (member? p) found) :
    s.HasRead pos d (member? (gap ++ p)) found := by
  rw [member?_gap_append hgap]
  refine ⟨h.depth, ?_, h.openKey, ?_⟩
  · rw [h.trailing, Option.isSome_map]
  · rw [h.found, Option.map_map]
    congr 3
    funext m
    simp [Member.span, Nat.add_assoc]

/-- A brace behind `name:` begins the value of a member if it is closed in the
piece. -/
theorem hasRead_of_brace {s : Scan} {key colon brace : Lexeme}
    {gap₁ gap₂ rest : List Lexeme} {d start : Nat} (hkey : key.isName = true)
    (hcolon : colon.kind = .colon) (hbrace : brace.kind = .opening)
    (hgap₁ : ∀ l ∈ gap₁, l.isGap = true) (hgap₂ : ∀ l ∈ gap₂, l.isGap = true)
    (hvalue : s.InValue 0 key.name start) (htrailing : s.trailing = false)
    {found : List KeySpan} (hfound : s.found = found)
    (hproper : ∀ l ∈ rest, l.kind = .closing → Text.size l.chars = 1)
    (hd : depthAfter 1 rest = some d) {pos : Nat}
    (hpos : pos = start +
      Text.size (flatten (key :: (gap₁ ++ colon :: (gap₂ ++ [brace]))))) :
    (s.run pos rest).HasRead start d
      (member? (key :: (gap₁ ++ colon :: (gap₂ ++ brace :: rest)))) found := by
  rw [member?_head hkey hcolon hbrace hgap₁ hgap₂]
  cases hsplit : splitValue 1 rest with
  | none =>
      obtain ⟨hne, hagrees⟩ := run_openValue hvalue hsplit hd pos
      exact hasRead_none hagrees rfl htrailing (fun h => (hne h).elim) hfound
  | some parts =>
      obtain ⟨value, trail⟩ := parts
      obtain ⟨rfl, hdepth, -⟩ := splitValue_eq_some hsplit
      obtain ⟨a, ha⟩ := run_value hvalue hproper hsplit pos
      have htrail : depthAfter 0 trail = some d := by
        rwa [depthAfter_append, hdepth] at hd
      have hidle : (s.run pos value).Idle 0 := by
        rw [ha]
        exact ⟨rfl, hvalue.entry, rfl⟩
      obtain ⟨b, hb⟩ := run_idle hidle htrail (pos + Text.size (flatten value))
      rw [run_append, hb, ha]
      refine ⟨rfl, rfl, fun _ => rfl, ?_⟩
      simp [withEdge, Member.span, hpos, hfound, Nat.add_assoc]

/-- Behind `name:` the reader finds the member, if the piece is one. -/
theorem hasRead_of_colon {s : Scan} {key colon : Lexeme} {gap ls : List Lexeme}
    {d start : Nat} (hkey : key.isName = true) (hgap : ∀ l ∈ gap, l.isGap = true)
    (hcolon : colon.kind = .colon) (hdepth : s.depth = 1)
    (hentry : s.entry = .value key.name start) (hopen : s.openKey = none)
    (htrailing : s.trailing = false) {found : List KeySpan} (hfound : s.found = found)
    (hproper : ∀ l ∈ ls, l.kind = .closing → Text.size l.chars = 1)
    (hd : depthAfter 0 ls = some d) {pos : Nat}
    (hpos : pos = start + Text.size (flatten (key :: (gap ++ [colon])))) :
    (s.run pos ls).HasRead start d (member? (key :: (gap ++ colon :: ls))) found := by
  have hsignificant : ∀ ls, significant (key :: (gap ++ colon :: ls)) =
      key :: colon :: significant ls := by
    intro ls
    have hcolonGap : colon.isGap = false := by simp [Lexeme.isGap, hcolon]
    rw [significant_cons (Lexeme.isGap_of_isName hkey), significant_gap_append hgap,
      significant_cons hcolonGap]
  rcases gap_cases ls with hls | ⟨gap₂, brace, rest, rfl, hgap₂, hbraceGap⟩
  · have hnone : member? (key :: (gap ++ colon :: ls)) = none := by
      apply member?_eq_none
      intro k c b rest h
      simp [hsignificant, significant_gap hls] at h
    rw [hnone]
    obtain rfl : 0 = d := by simpa [depthAfter_gap hls] using hd
    exact hasRead_none (run_gap hls s pos) hdepth htrailing (fun _ => hopen) hfound
  by_cases hbrace : brace.kind = .opening
  · obtain ⟨e, he, hrest⟩ := depthAfter_gap_cons hgap₂ hd
    obtain rfl : 1 = e := by simpa [Lexeme.depth?, hbrace] using he
    obtain ⟨a, b, hrun⟩ := run_gap_cons hgap₂ s pos brace rest
    rw [hrun, read_value (s := s.withEdge a) hdepth hentry hbrace]
    have hproper' : ∀ l ∈ rest, l.kind = .closing → Text.size l.chars = 1 := by
      intro l hl
      exact hproper l (by simp [hl])
    have hpos' : pos + Text.size (flatten gap₂) + Text.size brace.chars =
        start + Text.size (flatten (key :: (gap ++ colon :: (gap₂ ++ [brace])))) := by
      simp [hpos, Nat.add_assoc]
    refine hasRead_of_brace hkey hcolon hbrace hgap hgap₂ ?_ ?_ ?_ hproper' hrest hpos'
    · exact ⟨rfl, rfl, rfl⟩
    · exact htrailing
    · exact hfound
  · have hnone : member? (key :: (gap ++ colon :: (gap₂ ++ brace :: rest))) = none := by
      apply member?_eq_none
      intro k c b rest' h
      rw [hsignificant, significant_gap_append hgap₂, significant_cons hbraceGap] at h
      simp only [List.cons.injEq] at h
      rintro ⟨-, -, hb⟩
      exact hbrace (h.2.2.1 ▸ hb)
    rw [hnone]
    have hawait : ¬Awaits s.entry brace := by simpa [hentry, Awaits] using hbrace
    exact hasRead_none (run_unexpected hdepth hopen hgap₂ hbraceGap hawait hd pos) rfl
      htrailing (fun _ => hopen) hfound

theorem hasRead_of_name {s : Scan} {key : Lexeme} {ls : List Lexeme} {d start : Nat}
    (hkey : key.isName = true) (hdepth : s.depth = 1)
    (hentry : s.entry = .name key.name start) (hopen : s.openKey = none)
    (htrailing : s.trailing = false) {found : List KeySpan} (hfound : s.found = found)
    (hproper : ∀ l ∈ ls, l.kind = .closing → Text.size l.chars = 1)
    (hd : depthAfter 0 ls = some d) {pos : Nat} (hpos : pos = start + Text.size key.chars) :
    (s.run pos ls).HasRead start d (member? (key :: ls)) found := by
  have hname := Lexeme.isGap_of_isName hkey
  rcases gap_cases ls with hls | ⟨gap, colon, rest, rfl, hgap, hcolonGap⟩
  · have hnone : member? (key :: ls) = none := by
      apply member?_eq_none
      intro k c b rest h
      simp [significant_cons hname, significant_gap hls] at h
    rw [hnone]
    obtain rfl : 0 = d := by simpa [depthAfter_gap hls] using hd
    exact hasRead_none (run_gap hls s pos) hdepth htrailing (fun _ => hopen) hfound
  by_cases hcolon : colon.kind = .colon
  · obtain ⟨e, he, hrest⟩ := depthAfter_gap_cons hgap hd
    obtain rfl : 0 = e := by simpa [Lexeme.depth?, hcolon] using he
    obtain ⟨a, b, hrun⟩ := run_gap_cons hgap s pos colon rest
    rw [hrun, read_colon (s := s.withEdge a) hdepth hentry hcolon]
    have hproper' : ∀ l ∈ rest, l.kind = .closing → Text.size l.chars = 1 := by
      intro l hl
      exact hproper l (by simp [hl])
    have hpos' : pos + Text.size (flatten gap) + Text.size colon.chars =
        start + Text.size (flatten (key :: (gap ++ [colon]))) := by
      simp [hpos, Nat.add_assoc]
    refine hasRead_of_colon hkey hgap hcolon ?_ rfl ?_ ?_ ?_ hproper' hrest hpos'
    · exact hdepth
    · exact hopen
    · exact htrailing
    · exact hfound
  · have hnone : member? (key :: (gap ++ colon :: rest)) = none := by
      apply member?_eq_none
      intro k c b rest' h
      rw [significant_cons hname, significant_gap_append hgap,
        significant_cons hcolonGap] at h
      simp only [List.cons.injEq] at h
      rintro ⟨-, hc, -⟩
      exact hcolon (h.2.1 ▸ hc)
    rw [hnone]
    have hawait : ¬Awaits s.entry colon := by simpa [hentry, Awaits] using hcolon
    exact hasRead_none (run_unexpected hdepth hopen hgap hcolonGap hawait hd pos) rfl
      htrailing (fun _ => hopen) hfound

/-- From the beginning of a piece the reader finds its member, if it is one. -/
theorem hasRead_piece {s : Scan} {p : List Lexeme} {d : Nat} (h : s.Fresh)
    (hproper : ∀ l ∈ p, ∃ next, StopsAt l next)
    (hd : depthAfter 0 p = some d) (pos : Nat) :
    (s.run pos p).HasRead pos d (member? p) s.found := by
  obtain ⟨hdepth, hentry, hopen, htrailing⟩ := h
  rcases gap_cases p with hgap | ⟨gap, key, rest, rfl, hgap, hkeyGap⟩
  · rw [member?_gap hgap]
    obtain rfl : 0 = d := by simpa [depthAfter_gap hgap] using hd
    exact hasRead_none (run_gap hgap s pos) hdepth htrailing (fun _ => hopen) rfl
  by_cases hkey : key.isName = true
  · obtain ⟨e, he, hrest⟩ := depthAfter_gap_cons hgap hd
    obtain rfl : 0 = e := by simpa [(Lexeme.depth?_of_isName hkey 0).2] using he
    obtain ⟨a, b, hrun⟩ := run_gap_cons hgap s pos key rest
    rw [hrun, read_name (s := s.withEdge a) hdepth hentry hkey]
    have hproper' : ∀ l ∈ rest, l.kind = .closing → Text.size l.chars = 1 := by
      intro l hl hkind
      obtain ⟨next, hstop⟩ := hproper l (by simp [hl])
      rw [hstop.chars_of_punctuation (Or.inr rfl) hkind]
      rfl
    apply hasRead_gap_append hgap
    refine hasRead_of_name hkey ?_ rfl ?_ ?_ rfl hproper' hrest rfl
    · exact hdepth
    · exact hopen
    · exact htrailing
  · have hnone : member? (gap ++ key :: rest) = none := by
      apply member?_eq_none
      intro k c b rest' h
      rw [significant_gap_append hgap, significant_cons hkeyGap] at h
      rintro ⟨hk, -, -⟩
      exact hkey ((List.cons.inj h).1 ▸ hk)
    rw [hnone]
    have hawait : ¬Awaits s.entry key := by simpa [hentry, Awaits] using hkey
    exact hasRead_none (run_unexpected hdepth hopen hgap hkeyGap hawait hd pos) rfl
      htrailing (fun _ => hopen) rfl

/-! ## The edge -/

/-- Behind a run that is not all white space the edge is the end of the run
without its white space. -/
theorem edge_run {ls : List Lexeme} (hproper : ∀ l ∈ ls, ∃ next, StopsAt l next)
    (h : ∃ l ∈ ls, l.kind ≠ .blank) (s : Scan) (pos : Nat) :
    (s.run pos ls).edge =
      pos + Text.size (Text.dropEndWhile Text.isAsciiBlank (flatten ls)) := by
  induction ls using List.reverseRecOn with
  | nil => simp at h
  | append_singleton ls l ih =>
      obtain ⟨next, hstop⟩ := hproper l (by simp)
      have hrun : (s.run pos (ls ++ [l])).edge =
          (s.run pos ls).edgeAfter (pos + Text.size (flatten ls)) l := by
        rw [run_append]
        rfl
      rw [hrun, edgeAfter, flatten_append, flatten_cons, flatten_nil, List.append_nil]
      by_cases hblank : l.kind = .blank
      · have hls : ∃ l ∈ ls, l.kind ≠ .blank := by
          obtain ⟨k, hk, hkind⟩ := h
          rcases List.mem_append.mp hk with hk | hk
          · exact ⟨k, hk, hkind⟩
          · obtain rfl := List.mem_singleton.mp hk
            exact (hkind hblank).elim
        obtain ⟨c, hc, hcblank⟩ := hstop.chars_of_blank hblank
        rw [if_pos hblank, ih (fun k hk => hproper k (by simp [hk])) hls,
          Text.dropEndWhile_append_of_all (by simpa [hc] using hcblank)]
      · obtain ⟨c, cs, hc, hcblank⟩ := hstop.exists_cons_of_not_blank hblank
        have hexists : ∃ c ∈ l.chars, Text.isAsciiBlank c = false :=
          ⟨c, by simp [hc], hcblank⟩
        rw [if_neg hblank, Text.dropEndWhile_append_of_exists hexists, Text.size_append,
          Nat.add_assoc]

theorem size_dropEndWhile_member {p : List Lexeme} {m : Member} (h : member? p = some m)
    (hproper : ∀ l ∈ p, ∃ next, StopsAt l next) :
    Text.size (Text.dropEndWhile Text.isAsciiBlank (flatten p)) =
      Text.size (flatten m.lead) + Text.size (flatten m.value) +
        Text.size (Text.dropEndWhile Text.isAsciiBlank (flatten m.trail)) := by
  obtain ⟨hp, -⟩ := member?_parts h
  obtain ⟨c, inner, hvalue, -⟩ := member?_flatten_value h hproper
  have hend : flatten m.lead ++ flatten m.value =
      flatten m.lead ++ c :: inner ++ ['}'] := by
    simp [hvalue]
  rw [hp, flatten_append, flatten_append, hend,
    Text.dropEndWhile_append_of_last (by decide), ← hend]
  simp only [Text.size_append]

/-- Where a piece ends, its member takes what trails the value into its entry. -/
theorem closeEntry_found {s : Scan} {p : List Lexeme} {pos : Nat} {found : List KeySpan}
    (h : s.HasRead pos 0 (member? p) found) (hproper : ∀ l ∈ p, ∃ next, StopsAt l next)
    (hedge : (∃ l ∈ p, l.kind ≠ .blank) →
      s.edge = pos + Text.size (Text.dropEndWhile Text.isAsciiBlank (flatten p))) :
    s.closeEntry.found =
      ((member? p).map fun m => m.span Lexeme.name pos true).toList ++ found ∧
      s.closeEntry.trailing = false := by
  have htrailing := h.trailing
  have hfound := h.found
  cases hm : member? p with
  | none =>
      rw [hm] at htrailing hfound
      have hclose : s.closeEntry = s := by
        simp only [Option.isSome_none] at htrailing
        simp [closeEntry, htrailing]
      rw [hclose]
      exact ⟨hfound, htrailing⟩
  | some m =>
      rw [hm] at htrailing hfound
      have hkey : ∃ l ∈ p, l.kind ≠ .blank := by
        obtain ⟨_, _, _, _, _, hp, -, hname, hvalue, -⟩ := exists_of_member?_eq_some hm
        refine ⟨m.key, by simp [hp, hvalue], ?_⟩
        intro hblank
        simp [Lexeme.isName, hblank] at hname
      have hclose : s.closeEntry =
          { s with
            trailing := false
            found := { m.span Lexeme.name pos false with entryEnd := s.edge } ::
              found } := by
        simp only [Option.isSome_some, Option.map_some, Option.toList_some,
          List.singleton_append] at htrailing hfound
        simp [closeEntry, htrailing, hfound]
      rw [hclose, hedge hkey, size_dropEndWhile_member hm hproper]
      refine ⟨?_, rfl⟩
      simp [Member.span, Nat.add_assoc]

/-! ## Pieces in a row -/

theorem readName_depth (s : Scan) (name : String) (pos : Nat) :
    (s.readName name pos).depth = s.depth := by
  unfold readName
  split <;> rfl

theorem readOther_depth (s : Scan) : s.readOther.depth = s.depth := by
  unfold readOther
  split <;> rfl

theorem readColon_depth (s : Scan) : s.readColon.depth = s.depth := by
  unfold readColon
  split <;> rfl

theorem openBrace_depth (s : Scan) : s.openBrace.depth = s.depth + 1 := by
  unfold openBrace
  dsimp only
  split
  · split <;> rfl
  · rfl

theorem closeBrace_depth (s : Scan) (pos : Nat) :
    (s.closeBrace pos).depth = s.depth - 1 := by
  unfold closeBrace
  dsimp only
  split
  · split <;> rfl
  · rfl

theorem closeEntry_depth (s : Scan) : s.closeEntry.depth = s.depth := by
  unfold closeEntry
  split <;> rfl

theorem readComma_depth (s : Scan) : s.readComma.depth = s.depth := by
  unfold readComma
  split
  · exact closeEntry_depth s
  · rfl

theorem step_depth {s : Scan} {d e : Nat} {l : Lexeme} (hs : s.depth = d + 1)
    (hl : l.depth? d = some e) (pos : Nat) : (s.step pos l).depth = e + 1 := by
  change (s.read pos l).depth = e + 1
  cases hkind : l.kind <;> cases d <;>
    simp_all [Lexeme.depth?, read, readName_depth, readOther_depth, readColon_depth,
      openBrace_depth, closeBrace_depth, readComma_depth]

/-- The reader goes over a whole piece, since no lexeme of it ends the literal. -/
theorem readEntries_append {p : List Lexeme} {s : Scan} {d e : Nat} (hs : s.depth = d + 1)
    (hp : depthAfter d p = some e) (start pos : Nat) (rest : List Lexeme) :
    readEntries start s pos (p ++ rest) =
      readEntries start (s.run pos p) (pos + Text.size (flatten p)) rest := by
  induction p generalizing s d pos with
  | nil => simp
  | cons l p ih =>
      obtain ⟨c, hl, hp⟩ := Option.bind_eq_some_iff.mp hp
      have hstay : ¬(l.kind = .closing ∧ s.depth = 1) := by
        rintro ⟨hkind, hone⟩
        obtain rfl : d = 0 := by omega
        simp [Lexeme.depth?, hkind] at hl
      rw [List.cons_append, readEntries, if_neg hstay, ih (step_depth hs hl pos) hp]
      simp [Nat.add_assoc]

theorem fresh_step_separator {s : Scan} {p : List Lexeme} {pos : Nat} {found : List KeySpan}
    (h : s.HasRead pos 0 (member? p) found) (hproper : ∀ l ∈ p, ∃ next, StopsAt l next)
    (hedge : (∃ l ∈ p, l.kind ≠ .blank) →
      s.edge = pos + Text.size (Text.dropEndWhile Text.isAsciiBlank (flatten p)))
    (here : Nat) :
    (s.step here separator).Fresh ∧
      (s.step here separator).found =
        ((member? p).map fun m => m.span Lexeme.name pos true).toList ++ found := by
  obtain ⟨hfound, htrailing⟩ := closeEntry_found h hproper hedge
  have hread : s.read here separator = { s.closeEntry with entry := .key } := by
    simp [read, separator, readComma, h.depth]
  have hkey : s.closeEntry.openKey = none := by
    rw [← h.openKey rfl]
    unfold closeEntry
    split <;> rfl
  rw [step_eq, hread]
  refine ⟨⟨?_, rfl, hkey, htrailing⟩, hfound⟩
  exact (closeEntry_depth s).trans h.depth

end Scan

theorem toList_append_reverse (key : Option KeySpan) (found : List KeySpan) :
    (key.toList ++ found).reverse = found.reverse ++ key.toList := by
  cases key <;> simp

/-- What the reader makes of lexemes is what their layout says. -/
theorem readEntries_of_layout {body rest : List Lexeme} {ps : List (List Lexeme)}
    (h : Layout body ps rest) (hproper : ∀ l ∈ body, ∃ next, StopsAt l next) {s : Scan}
    (hs : s.Fresh) (start pos : Nat) :
    readEntries start s pos (body ++ rest) =
      ⟨start, pos + Text.size (flatten body) + closingPart rest,
        s.found.reverse ++ spans Lexeme.name pos (!rest.isEmpty) ps, !rest.isEmpty⟩ := by
  induction h generalizing s pos with
  | @unclosed p d hd =>
      have hread := Scan.hasRead_piece hs hproper hd pos
      rw [Scan.readEntries_append hs.depth hd, readEntries, hread.found,
        toList_append_reverse]
      simp [spans, closingPart]
  | @closed p rest brace hd hbrace =>
      have hread := Scan.hasRead_piece hs hproper hd pos
      have hfound := (Scan.closeEntry_found hread hproper
        fun hne => Scan.edge_run hproper hne s pos).1
      rw [Scan.readEntries_append hs.depth hd, readEntries, if_pos ⟨hbrace, hread.depth⟩,
        hfound, toList_append_reverse]
      simp [spans, closingPart, flatten, Nat.add_assoc]
  | @comma p body rest ps hd hlayout ih =>
      have hp : ∀ l ∈ p, ∃ next, StopsAt l next := fun l hl => hproper l (by simp [hl])
      have hread := Scan.hasRead_piece hs hp hd pos
      obtain ⟨hfresh, hfound⟩ := Scan.fresh_step_separator hread hp
        (fun hne => Scan.edge_run hp hne s pos) (pos + Text.size (flatten p))
      have hstay : ¬(separator.kind = .closing ∧ (s.run pos p).depth = 1) := by
        simp [separator]
      have hps : ps.isEmpty = false := by cases hlayout <;> rfl
      rw [List.append_assoc, List.cons_append, Scan.readEntries_append hs.depth hd,
        readEntries, if_neg hstay, ih (fun l hl => hproper l (by simp [hl])) hfresh, hfound,
        toList_append_reverse]
      simp [spans, hps, size_separator, Nat.add_assoc]

/-! ## Texts -/

/-- A text with the layout of the lexemes behind its first marker. -/
structure LaidOut (marker text front : List Char) (body : List Lexeme)
    (ps : List (List Lexeme)) (rest : List Lexeme) : Prop where
  text_eq : text = front ++ marker ++ flatten (body ++ rest)
  first : Text.FirstAt marker front (flatten (body ++ rest))
  lexed : Lexed (body ++ rest)
  layout : Layout body ps rest

theorem LaidOut.text_eq_append {marker text front : List Char} {body rest : List Lexeme}
    {ps : List (List Lexeme)} (h : LaidOut marker text front body ps rest) :
    text = front ++ marker ++ flatten body ++ flatten rest := by
  rw [h.text_eq, flatten_append, List.append_assoc (front ++ marker)]

theorem LaidOut.proper {marker text front : List Char} {body rest : List Lexeme}
    {ps : List (List Lexeme)} (h : LaidOut marker text front body ps rest) {l : Lexeme}
    (hl : l ∈ body) : ∃ next, StopsAt l next :=
  h.lexed.proper (List.mem_append_left rest hl)

/-- What the reader finds in a text is what the layout says. -/
theorem LaidOut.find?_eq {marker text front : List Char} {body rest : List Lexeme}
    {ps : List (List Lexeme)} (h : LaidOut marker text front body ps rest) :
    find? marker text = some (literalOf Lexeme.name front marker body ps rest) := by
  have hsplit := Text.splitFirst_of_firstAt h.first
  rw [← h.text_eq] at hsplit
  simp only [find?, hsplit, Option.map_some, lexemes_flatten h.lexed]
  rw [readEntries_of_layout h.layout (fun l hl => h.proper hl) ⟨rfl, rfl, rfl, rfl⟩]
  rfl

theorem exists_laidOut {marker text : List Char} {literal : StyleLiteral}
    (h : find? marker text = some literal) :
    ∃ front body ps rest, LaidOut marker text front body ps rest := by
  obtain ⟨⟨front, back⟩, hsplit, -⟩ := Option.map_eq_some_iff.mp h
  have hlexed := lexed_lexemes back
  obtain ⟨body, ps, rest, hbody, hlayout⟩ := exists_layout hlexed
  have hback : back = flatten (body ++ rest) := by rw [← hbody, flatten_lexemes]
  rw [hbody] at hlexed
  subst hback
  exact ⟨front, body, ps, rest, Text.splitFirst_eq_some hsplit,
    Text.firstAt_of_splitFirst hsplit, hlexed, hlayout⟩

theorem LaidOut.exchange {marker text front : List Char} {body rest body' : List Lexeme}
    {ps ps' : List (List Lexeme)} (h : LaidOut marker text front body ps rest)
    (hlexed : Lexed (body' ++ rest)) (hlayout : Layout body' ps' rest) :
    LaidOut marker (front ++ marker ++ flatten (body' ++ rest)) front body' ps' rest :=
  ⟨rfl, h.first.replace _, hlexed, hlayout⟩

theorem find?_eq_some_iff {marker text : List Char} {literal : StyleLiteral} :
    find? marker text = some literal ↔
      ∃ front body ps rest, LaidOut marker text front body ps rest ∧
        literal = literalOf Lexeme.name front marker body ps rest := by
  constructor
  · intro h
    obtain ⟨front, body, ps, rest, hlaid⟩ := exists_laidOut h
    have hfind := hlaid.find?_eq
    rw [h] at hfind
    exact ⟨front, body, ps, rest, hlaid, Option.some.inj hfind⟩
  · rintro ⟨front, body, ps, rest, hlaid, rfl⟩
    exact hlaid.find?_eq

end StylePrune.Literal
