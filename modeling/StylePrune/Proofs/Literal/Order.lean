import Mathlib.Data.List.Infix
import StylePrune.Proofs.Literal.Body
import StylePrune.Proofs.Literal.Joining
import StylePrune.Proofs.Literal.Removal

/-!
# The order of cuts

Where white space is spaces, tabs and line endings only, the order in which keys are cut
out of a closed literal does not matter.  Two cuts are compared piece by piece: each
leaves the other's entry where it is, with the same text on the far side, so that what is
left is a matter of closing two gaps.  A permutation is then a run of exchanges.
-/

namespace StylePrune.Literal

/-! ## Plain white space -/

/-- White space at the start is a space, a tab or a line ending. -/
def beginsPlain : List Char → Bool
  | [] => true
  | c :: rest =>
    !Text.isBlank c || Text.isTab c || c == '\n' || (c == '\r' && rest.head? == some '\n')

/-- All white space is spaces, tabs and line endings, of one character or of two. -/
def PlainBlanks (text : List Char) : Prop :=
  ∀ cs ∈ text.tails, beginsPlain cs = true

instance (text : List Char) : Decidable (PlainBlanks text) :=
  inferInstanceAs (Decidable (∀ cs ∈ text.tails, beginsPlain cs = true))

theorem beginsPlain_cons_iff {c : Char} {rest : List Char} :
    beginsPlain (c :: rest) = true ↔ (Text.isBlank c = true →
      Text.isTab c = true ∨ c = '\n' ∨ c = '\r' ∧ rest.head? = some '\n') := by
  cases hblank : Text.isBlank c <;> simp [beginsPlain, hblank, or_assoc]

theorem PlainBlanks.cases {front back : List Char} {c : Char}
    (h : PlainBlanks (front ++ c :: back)) (hc : Text.isBlank c = true) :
    Text.isTab c = true ∨ c = '\n' ∨ c = '\r' ∧ back.head? = some '\n' :=
  beginsPlain_cons_iff.mp (h (c :: back) ((List.mem_tails _ _).mpr ⟨front, rfl⟩)) hc

theorem PlainBlanks.isAsciiBlank {text : List Char} (h : PlainBlanks text) :
    ∀ c ∈ text, Text.isBlank c = true → Text.isAsciiBlank c = true := by
  intro c hc hblank
  obtain ⟨front, back, rfl⟩ := List.append_of_mem hc
  rcases h.cases hblank with htab | rfl | ⟨rfl, -⟩
  · exact Text.isAsciiBlank_of_isTab htab
  · rfl
  · rfl

/-- A cut that tears no line ending apart leaves white space plain. -/
theorem PlainBlanks.cut {kept cut tail : List Char}
    (h : PlainBlanks (kept ++ (cut ++ tail))) (hwhole : ¬SplitsReturn kept (cut ++ tail)) :
    PlainBlanks (kept ++ tail) := by
  intro cs hcs
  obtain ⟨front, hfront⟩ := (List.mem_tails _ _).mp hcs
  cases cs with
  | nil => rfl
  | cons c cs =>
      rw [beginsPlain_cons_iff]
      intro hblank
      rcases List.append_eq_append_iff.mp hfront with ⟨mid, rfl, hmid⟩ | ⟨mid, rfl, rfl⟩
      · cases mid with
        | nil =>
            obtain rfl : c :: cs = tail := hmid
            rw [← List.append_assoc] at h
            exact h.cases hblank
        | cons d mid =>
            obtain ⟨rfl, rfl⟩ := List.cons.inj hmid
            rw [List.append_assoc, List.cons_append] at h
            refine (h.cases hblank).imp id fun hline => hline.imp id ?_
            rintro ⟨rfl, hhead⟩
            refine ⟨rfl, ?_⟩
            cases mid with
            | nil => exact (hwhole ⟨by simp, hhead⟩).elim
            | cons d mid => exact hhead
      · rw [← List.append_assoc, ← List.append_assoc] at h
        exact h.cases hblank

theorem PlainBlanks.of_cutsOut {text out kept lead entry trail tail : List Char}
    {span : KeySpan} (h : PlainBlanks text)
    (hcuts : CutsOut text out span kept lead entry trail tail) :
    PlainBlanks out := by
  have htext : text = kept ++ ((lead ++ entry ++ trail) ++ tail) := by
    rw [hcuts.text_eq]
    simp
  rw [htext] at h
  rw [hcuts.out_eq]
  exact h.cut hcuts.front_whole

/-! ## Two cuts -/

/-- Behind a cut that uncovers nothing, a member keeps all but its lead, and the pieces
behind it. -/
theorem Rejoined.exists_split {piece gap q : List Lexeme} {ended : Prop}
    {mid after new : List (List Lexeme)} {n : Member}
    (h : Rejoined piece gap ended (mid ++ q :: after) new) (hended : ended)
    (hgap : ∀ l ∈ gap, l.isGap = true)
    (hcovers : ∀ next ∈ (mid ++ q :: after).head?, ¬Uncovers piece next)
    (hn : member? q = some n) :
    ∃ mid' q' lead, new = mid' ++ q' :: after ∧ member? q' = some { n with lead := lead } ∧
      (mid'.filterMap member?).map (·.key.name) =
        (mid.filterMap member?).map (·.key.name) := by
  have hnames := h.map_eq hended hgap hcovers (g := (·.key.name)) fun m lead => rfl
  obtain ⟨mid', q', lead, rfl, hq'⟩ : ∃ mid' q' lead, new = mid' ++ q' :: after ∧
      member? q' = some { n with lead := lead } := by
    generalize hpieces : mid ++ q :: after = pieces at h hcovers
    cases h with
    | @kept r _ _ _ =>
        subst hpieces
        exact ⟨(gap ++ r) :: mid, q, n.lead, rfl, hn⟩
    | @merged blanks r others hiff =>
        cases mid with
        | nil =>
            obtain ⟨rfl, rfl⟩ := List.cons.inj hpieces
            rcases singles_append_cases (mt hiff.mpr (hcovers _ rfl)) with
              ⟨-, hnone⟩ | hblanks
            · rw [hnone] at hn
              cases hn
            · rw [member?_gap_append hblanks] at hn
              obtain ⟨n', hr, rfl⟩ := Option.map_eq_some_iff.mp hn
              exact ⟨[], gap ++ r, gap ++ n'.lead,
                rfl, by rw [member?_gap_append hgap, hr]; rfl⟩
        | cons p mid =>
            obtain ⟨-, rfl⟩ := List.cons.inj hpieces
            exact ⟨(gap ++ r) :: mid, q, n.lead, rfl, hn⟩
  refine ⟨mid', q', lead, rfl, hq', ?_⟩
  simpa [List.filterMap_cons_some hq', List.filterMap_cons_some hn] using hnames

section TwoCuts

variable {marker text front : List Char} {key : String} {span : KeySpan}
  {body rest : List Lexeme}
  {ps : List (List Lexeme)}

/-- An entry behind one that is cut keeps its text and what follows it. -/
theorem Excision.exists_entryAt_behind {out : List Char}
    (e : Excision marker text out front key span ps rest) (hclosed : rest ≠ [])
    (hcovers : ∀ next ∈ e.after.head?, ¬Uncovers e.piece next) {other : String}
    {mid after : List (List Lexeme)} {q : List Lexeme} {n : Member}
    (hafter : e.after = mid ++ q :: after) (hn : member? q = some n)
    (hname : n.key.name = other)
    (hnames : ∀ k ∈ (e.before ++ e.piece :: mid).filterMap member?, k.key.name ≠ other)
    {slack : List Char} (hslack : n.Leaves slack) :
    ∃ joint, EntryAt marker out other joint n.entry.2
      (slack ++ flatten (led after ++ rest)) := by
  have hrejoined := e.rejoined
  rw [hafter] at hrejoined hcovers
  obtain ⟨mid', q', lead, hnew, hq', hmid'⟩ :=
    hrejoined.exists_split hclosed e.gap_isGap hcovers hn
  have hlaid := e.laidOut
  rw [hnew, ← List.append_assoc] at hlaid
  have hbefore : ∀ k ∈ (e.before ++ mid').filterMap member?, k.key.name ≠ other := by
    intro k hk
    rw [List.filterMap_append, List.mem_append] at hk
    rcases hk with hk | hk
    · exact hnames k (by simp [List.filterMap_append, hk])
    · have hkname : k.key.name ∈ (mid.filterMap member?).map (·.key.name) := by
        rw [← hmid']
        exact List.mem_map.mpr ⟨k, hk, rfl⟩
      obtain ⟨k', hk', hsame⟩ := List.mem_map.mp hkname
      rw [← hsame]
      refine hnames k' ?_
      rw [List.filterMap_append, List.filterMap_cons_some e.member_eq]
      simp [hk']
  exact ⟨_, hlaid.entryAt (m := { n with lead := lead }) hclosed hq' hname hbefore hslack⟩

/-- An entry in front of one that is cut keeps its text and what precedes it. -/
theorem Excision.exists_entryAt_before {out : List Char}
    (e : Excision marker text out front key span ps rest) (hclosed : rest ≠ [])
    {other : String} {before mid : List (List Lexeme)} {p : List Lexeme} {m : Member}
    (hbefore : e.before = before ++ p :: mid) (hm : member? p = some m)
    (hname : m.key.name = other)
    (hnames : ∀ k ∈ before.filterMap member?, k.key.name ≠ other) {slack : List Char}
    (hslack : m.Leaves slack) :
    ∃ back, EntryAt marker out other (front ++ marker ++ flatten (joined before ++ m.lead))
      m.entry.2 back := by
  have hlaid := e.laidOut
  have hpieces : e.before ++ e.new = before ++ p :: (mid ++ e.new) := by
    rw [hbefore, List.append_assoc, List.cons_append]
  rw [hpieces] at hlaid
  exact ⟨_, hlaid.entryAt hclosed hm hname hnames hslack⟩

theorem parts_of_plain {front slack more tail : List Char} {c : Char}
    (h : PlainBlanks (front ++ (slack ++ ',' :: more) ++ c :: tail))
    (hc : Text.isBlank c = false) (hslack : ∀ d ∈ slack, Text.isAsciiBlank d = true) :
    Parts (slack ++ ',' :: more) := by
  refine ⟨⟨slack, more, rfl, fun d hd => isBlank_of_isAsciiBlank (hslack d hd)⟩, ?_⟩
  intro hnewline d hd hblank
  obtain ⟨middle, middle', hmiddle⟩ := List.append_of_mem hd
  rw [hmiddle] at h hnewline
  have hsplit : front ++ (middle ++ d :: middle') ++ c :: tail =
      front ++ middle ++ d :: (middle' ++ c :: tail) := by simp
  rw [hsplit] at h
  rcases h.cases hblank with htab | rfl | ⟨-, hhead⟩
  · exact htab
  · exact absurd (by simp) hnewline
  · -- the line feed behind a carriage return would stand between the entries
    cases middle' with
    | nil =>
        obtain rfl : c = '\n' := by simpa using hhead
        exact absurd hc (by decide)
    | cons e middle' =>
        obtain rfl : e = '\n' := by simpa using hhead
        exact absurd (by simp) hnewline

/-- Between two entries of a plain text stands a comma, and on one line no white space
but spaces and tabs. -/
theorem LaidOut.exists_parts {before mid after : List (List Lexeme)} {p q : List Lexeme}
    {m n : Member}
    (h : LaidOut marker text front body (before ++ p :: (mid ++ q :: after)) rest)
    (hplain : PlainBlanks text) (hm : member? p = some m) (hn : member? q = some n) :
    ∃ middle c tail, Parts middle ∧ Text.isBlank c = false ∧ n.entry.2 = c :: tail ∧
      front ++ marker ++ flatten (joined (before ++ p :: mid) ++ n.lead) =
        front ++ marker ++ flatten (joined before ++ m.lead) ++ m.entry.2 ++ middle := by
  obtain ⟨slack, hslack, hblank⟩ :=
    Text.exists_dropEndWhile_append Text.isAsciiBlank (flatten m.trail)
  obtain ⟨slack', hslack', -⟩ :=
    Text.exists_dropEndWhile_append Text.isAsciiBlank (flatten n.trail)
  have hproper : ∀ l ∈ q, ∃ next, StopsAt l next :=
    fun l hl => h.proper (h.layout.mem_body (p := q) (by simp) hl)
  obtain ⟨c, inner, hvalue, hc⟩ := member?_flatten_value hn hproper
  have hentry : n.entry.2 = c :: (inner ++ ['}'] ++
      Text.dropEndWhile Text.isAsciiBlank (flatten n.trail)) := by
    simp [Member.entry, hvalue]
  have hjoined : front ++ marker ++ flatten (joined (before ++ p :: mid) ++ n.lead) =
      front ++ marker ++ flatten (joined before ++ m.lead) ++ m.entry.2 ++
        (slack ++ ',' :: flatten (joined mid ++ n.lead)) := by
    have hpiece := member?_flatten hm hslack
    simp [joined, hpiece, separator]
  have hlaid : LaidOut marker text front body
      ((before ++ p :: mid) ++ q :: after) rest := by
    simpa using h
  have hwhole := hlaid.text_eq_entry hn hslack'
  rw [hjoined, hentry, List.append_assoc _ (c :: _), List.cons_append] at hwhole
  have hother : Text.isBlank c = false := by
    by_contra hcblank
    have hascii := hplain.isAsciiBlank c (by rw [hwhole]; simp) (by simpa using hcblank)
    rw [hc] at hascii
    cases hascii
  rw [hwhole] at hplain
  exact ⟨_, c, _, parts_of_plain hplain hother hblank, hother, hentry, hjoined⟩

/-- Two entries that stay where they are when the other goes are cut in either order. -/
theorem EntryAt.exists_comm
    {a b head entry middle tail back joint behind behind' : List Char} {c : Char}
    {key key' : String} (hfirst : EntryAt marker text key head entry behind)
    (hsecond : EntryAt marker text key' (head ++ entry ++ middle) (c :: tail) back)
    (ha : cut? marker text key = some a) (hb : cut? marker text key' = some b)
    (hsecond' : EntryAt marker a key' joint (c :: tail) back)
    (hfirst' : EntryAt marker b key head entry behind')
    (hhead : ∃ d ∈ head, Text.isBlank d = false) (hparts : Parts middle)
    (hc : Text.isBlank c = false) :
    ∃ out, cut? marker a key' = some out ∧ cut? marker b key = some out := by
  obtain ⟨joined, hjoined, hclose⟩ := closeGap_closeGap hhead hparts hc (tail ++ back) back
  have hbehind : behind = middle ++ c :: (tail ++ back) := by
    have hwhole := hfirst.text_eq.symm.trans hsecond.text_eq
    simpa using hwhole
  have hjoint : joint = joined := by
    rw [hfirst.cut?_eq, hbehind, hjoined] at ha
    have hwhole := (Option.some.inj ha).trans hsecond'.text_eq
    rw [List.append_assoc, List.cons_append] at hwhole
    exact (List.append_cancel_right hwhole).symm
  have hbehind' : behind' = closeGap middle back := by
    obtain ⟨blanks, more, rfl, -⟩ := hparts.comma
    rw [hsecond.cut?_eq, closeGap_append ⟨',', by simp, by decide⟩] at hb
    exact (List.append_cancel_left ((Option.some.inj hb).trans hfirst'.text_eq)).symm
  refine ⟨closeGap joined back, ?_, ?_⟩
  · rw [hsecond'.cut?_eq, hjoint]
  · rw [hfirst'.cut?_eq, hbehind', hclose]

/-- Two entries are cut in either order, of which one stands in front of the other. -/
theorem Excision.exists_comm {a b : List Char} {key' : String} {span' : KeySpan}
    {mid : List (List Lexeme)} (h : LaidOut marker text front body ps rest)
    (hclosed : rest ≠ []) (hmarker : marker.getLast? = some '{') (hplain : PlainBlanks text)
    (ha : cut? marker text key = some a) (hb : cut? marker text key' = some b)
    (e : Excision marker text a front key span ps rest)
    (e' : Excision marker text b front key' span' ps rest)
    (hbefore : e'.before = e.before ++ e.piece :: mid)
    (hafter : e.after = mid ++ e'.piece :: e'.after) :
    ∃ out, cut? marker a key' = some out ∧ cut? marker b key = some out := by
  obtain ⟨slack, hslack, -⟩ :=
    Text.exists_dropEndWhile_append Text.isAsciiBlank (flatten e.member.trail)
  obtain ⟨slack', hslack', -⟩ :=
    Text.exists_dropEndWhile_append Text.isAsciiBlank (flatten e'.member.trail)
  have hcovers := e.covers_of_isChain
    (h.isChain_of_ascii hplain.isAsciiBlank [key]) (by simp)
  -- the two entries in the text, and each of them when the other is gone
  have hfirst := (e.pieces_eq ▸ h).entryAt hclosed e.member_eq e.name_eq e.name_ne hslack
  have hsecond :=
    (e'.pieces_eq ▸ h).entryAt hclosed e'.member_eq e'.name_eq e'.name_ne hslack'
  obtain ⟨joint, hsecond'⟩ := e.exists_entryAt_behind hclosed hcovers hafter e'.member_eq
    e'.name_eq (hbefore ▸ e'.name_ne) hslack'
  obtain ⟨back, hfirst'⟩ := e'.exists_entryAt_before hclosed hbefore e.member_eq e.name_eq
    e.name_ne hslack
  have hpieces := e.pieces_eq
  rw [hafter] at hpieces
  obtain ⟨middle, c, tail, hparts, hc, hentry, hmiddle⟩ :=
    (hpieces ▸ h).exists_parts hplain e.member_eq e'.member_eq
  rw [← hbefore] at hmiddle
  rw [hmiddle, hentry] at hsecond
  rw [hentry] at hsecond'
  have hbrace : ∃ d ∈ front ++ marker ++ flatten (joined e.before ++ e.member.lead),
      Text.isBlank d = false :=
    ⟨'{', by simp [List.mem_of_getLast? hmarker], by decide⟩
  exact hfirst.exists_comm hsecond ha hb hsecond' hfirst' hbrace hparts hc

end TwoCuts

theorem append_cons_cases {α : Type} {xs xs' ys ys' : List α} {x x' : α}
    (h : xs ++ x :: ys = xs' ++ x' :: ys') :
    (∃ mid, xs' = xs ++ x :: mid ∧ ys = mid ++ x' :: ys') ∨
      (∃ mid, xs = xs' ++ x' :: mid ∧ ys' = mid ++ x :: ys) ∨ x = x' := by
  rcases List.append_eq_append_iff.mp h with ⟨mid, rfl, hmid⟩ | ⟨mid, rfl, hmid⟩
  · cases mid with
    | nil => exact Or.inr (Or.inr (List.cons.inj hmid).1)
    | cons y mid =>
        obtain ⟨rfl, hys⟩ := List.cons.inj hmid
        exact Or.inl ⟨mid, rfl, hys⟩
  · cases mid with
    | nil => exact Or.inr (Or.inr (List.cons.inj hmid).1.symm)
    | cons y mid =>
        obtain ⟨rfl, hys⟩ := List.cons.inj hmid
        exact Or.inr (Or.inl ⟨mid, rfl, hys⟩)

/-! ## Runs of cuts in any order -/

/-- Cuts a key, if it names an entry. -/
def cutKey (marker text : List Char) (key : String) : List Char :=
  (cut? marker text key).getD text

theorem text_cutAll_cons (marker text : List Char) (key : String) (keys : List String) :
    (cutAll marker text (key :: keys)).text =
      (cutAll marker (cutKey marker text key) keys).text := by
  rw [cutAll, cutKey]
  cases cut? marker text key <;> rfl

/-- A closed literal in a text whose white space is plain. -/
structure Regular (marker text : List Char) : Prop where
  plain : PlainBlanks text
  closed : ∃ front body ps rest, LaidOut marker text front body ps rest ∧ rest ≠ []

section Regular

variable {marker text : List Char} (hmarker : marker.getLast? = some '{')

include hmarker

theorem Regular.of_cut? (h : Regular marker text) {key : String} {out : List Char}
    (hcut : cut? marker text key = some out) : Regular marker out := by
  obtain ⟨front, body, ps, rest, hlaid, hclosed⟩ := h.closed
  obtain ⟨span, -, ⟨e⟩⟩ := hlaid.exists_excision hmarker hcut
  refine ⟨h.plain.of_cutsOut e.cutsOut, front, _, _, rest, e.laidOut, hclosed⟩

theorem Regular.cutKey (h : Regular marker text) (key : String) :
    Regular marker (cutKey marker text key) := by
  rw [Literal.cutKey]
  cases hcut : cut? marker text key with
  | none => exact h
  | some out => exact h.of_cut? hmarker hcut

/-- A cut brings no key about. -/
theorem Regular.cut?_eq_none (h : Regular marker text) {key key' : String} {out : List Char}
    (hnone : cut? marker text key = none) (hcut : cut? marker text key' = some out) :
    cut? marker out key = none := by
  obtain ⟨front, body, ps, rest, hlaid, hclosed⟩ := h.closed
  have htidy : Tidy [key'] marker text front body ps rest :=
    ⟨hlaid, hclosed, hlaid.isChain_of_ascii h.plain.isAsciiBlank [key']⟩
  obtain ⟨body', ps', htidy', hentries⟩ := htidy.exists_of_cut? hmarker (by simp) hcut
  rw [htidy'.cut?_eq_none_iff, namesOf_eq_erase hentries]
  exact fun hmem => hlaid.cut?_eq_none_iff.mp hnone (List.mem_of_mem_erase hmem)

theorem Regular.exists_comm (h : Regular marker text) {key key' : String} (hne : key ≠ key')
    {a b : List Char} (ha : cut? marker text key = some a)
    (hb : cut? marker text key' = some b) :
    ∃ out, cut? marker a key' = some out ∧ cut? marker b key = some out := by
  obtain ⟨front, body, ps, rest, hlaid, hclosed⟩ := h.closed
  obtain ⟨span, -, ⟨e⟩⟩ := hlaid.exists_excision hmarker ha
  obtain ⟨span', -, ⟨e'⟩⟩ := hlaid.exists_excision hmarker hb
  rcases append_cons_cases (e.pieces_eq.symm.trans e'.pieces_eq) with
    ⟨mid, hbefore, hafter⟩ | ⟨mid, hbefore, hafter⟩ | hpiece
  · exact e.exists_comm hlaid hclosed hmarker h.plain ha hb e' hbefore hafter
  · obtain ⟨out, hout, hout'⟩ :=
      e'.exists_comm hlaid hclosed hmarker h.plain hb ha e hbefore hafter
    exact ⟨out, hout', hout⟩
  · have hmember := e.member_eq
    rw [hpiece, e'.member_eq] at hmember
    have hname := e.name_eq
    rw [← Option.some.inj hmember, e'.name_eq] at hname
    exact absurd hname.symm hne

/-- Two keys are cut in either order. -/
theorem Regular.cutKey_comm (h : Regular marker text) (key key' : String) :
    Literal.cutKey marker (Literal.cutKey marker text key) key' =
      Literal.cutKey marker (Literal.cutKey marker text key') key := by
  by_cases hne : key = key'
  · rw [hne]
  · unfold Literal.cutKey
    cases ha : cut? marker text key with
    | none =>
        cases hb : cut? marker text key' with
        | none => simp [ha, hb]
        | some b => simp [hb, h.cut?_eq_none hmarker ha hb]
    | some a =>
        cases hb : cut? marker text key' with
        | none => simp [ha, h.cut?_eq_none hmarker hb ha]
        | some b =>
            obtain ⟨out, hout, hout'⟩ := h.exists_comm hmarker hne ha hb
            simp [hout, hout']

theorem Regular.text_cutAll (h : Regular marker text) {keys keys' : List String}
    (hperm : keys.Perm keys') :
    (cutAll marker text keys).text = (cutAll marker text keys').text := by
  induction hperm generalizing text with
  | nil => rfl
  | cons key _ ih =>
      rw [text_cutAll_cons, text_cutAll_cons]
      exact ih (h.cutKey hmarker key)
  | swap key key' keys =>
      rw [text_cutAll_cons, text_cutAll_cons, text_cutAll_cons, text_cutAll_cons,
        h.cutKey_comm hmarker]
  | trans _ _ ih ih' => exact (ih h).trans (ih' h)

end Regular

/-- In a closed literal of a text whose white space is spaces, tabs and line endings, the
order in which keys are cut does not matter. -/
theorem cutAll_text_of_perm {marker text : List Char} {literal : StyleLiteral}
    (hmarker : marker.getLast? = some '{') (hfind : find? marker text = some literal)
    (hclosed : literal.terminated = true) (hplain : PlainBlanks text)
    {keys keys' : List String} (h : keys.Perm keys') :
    (cutAll marker text keys).text = (cutAll marker text keys').text := by
  obtain ⟨front, body, ps, rest, hlaid, rfl⟩ := find?_eq_some_iff.mp hfind
  have hrest : rest ≠ [] := by
    rintro rfl
    cases hclosed
  exact Regular.text_cutAll hmarker ⟨hplain, front, body, ps, rest, hlaid, hrest⟩ h

/-- Entries that share their first or their last line with others. -/
theorem cutAll_text_of_perm_three :
    let text := "(\x7b a: {}, b: {},\r\n c: \x7b\n\x7d \x7d)".toList
    (cutAll ['(', '{'] text ["a", "b", "c"]).text =
        (cutAll ['(', '{'] text ["c", "a", "b"]).text ∧
      (cutAll ['(', '{'] text ["c", "a", "b"]).text = "(\x7b\r\n \x7d)".toList := by
  intro text
  have hread : find? ['(', '{'] text =
      some ⟨0, 28, [⟨"a", 3, 8, 8⟩, ⟨"b", 10, 15, 15⟩, ⟨"c", 19, 25, 25⟩], true⟩ := by
    decide +kernel
  have hperm : ["a", "b", "c"].Perm ["c", "a", "b"] := by decide
  refine ⟨cutAll_text_of_perm (by decide +kernel) hread rfl (by decide +kernel) hperm, ?_⟩
  decide +kernel

end StylePrune.Literal
