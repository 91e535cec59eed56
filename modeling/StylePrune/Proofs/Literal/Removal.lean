import Mathlib.Data.List.Chain
import StylePrune.Proofs.Literal.Frame

/-!
# Exact removal

Several keys are cut one after another, and the text is read anew for each.
In a closed literal each entry that uncovers no hidden member goes alone: all
others stay as they are, character by character.  A whole run therefore drops as
many entries of each name, the first ones, as the name is listed, and misses
exactly the names listed once too often.
-/

namespace StylePrune.Literal

/-! ## Counting names -/

/-- Parts a list into the elements that have fewer earlier ones of their name than
the quota of the name, and the others. -/
def allot {α : Type} (nameOf : α → String) (quota : String → Nat) :
    List String → List α → List α × List α
  | _, [] => ([], [])
  | earlier, x :: xs =>
    let (first, others) := allot nameOf quota (nameOf x :: earlier) xs
    if earlier.count (nameOf x) < quota (nameOf x) then (x :: first, others)
    else (first, x :: others)

section Allot

variable {α : Type} {nameOf : α → String}

/-- Only what is left of each quota counts. -/
theorem allot_congr {quota quota' : String → Nat} {earlier earlier' : List String}
    (h : ∀ n, quota n - earlier.count n = quota' n - earlier'.count n) (xs : List α) :
    allot nameOf quota earlier xs = allot nameOf quota' earlier' xs := by
  induction xs generalizing earlier earlier' with
  | nil => rfl
  | cons x xs ih =>
      have hstep : ∀ n, quota n - (nameOf x :: earlier).count n =
          quota' n - (nameOf x :: earlier').count n := by
        intro n
        have hn := h n
        simp only [List.count_cons]
        omega
      have htest : earlier.count (nameOf x) < quota (nameOf x) ↔
          earlier'.count (nameOf x) < quota' (nameOf x) := by
        have hx := h (nameOf x)
        omega
      simp only [allot, ih hstep, htest]

/-- One more of a name goes if the first of that name is taken out beforehand. -/
theorem allot_eraseP {quota : String → Nat} {earlier : List String} {key : String}
    (h : earlier.count key ≤ quota key) (xs : List α) :
    (allot nameOf (fun n => quota n + if key == n then 1 else 0) earlier xs).2 =
      (allot nameOf quota earlier (xs.eraseP (nameOf · == key))).2 := by
  induction xs generalizing earlier with
  | nil => rfl
  | cons x xs ih =>
      by_cases hx : nameOf x = key
      · have hleft : ∀ n, quota n + (if key == n then 1 else 0) -
            (nameOf x :: earlier).count n = quota n - earlier.count n := by
          intro n
          rw [List.count_cons, hx]
          omega
        have htest : earlier.count (nameOf x) <
            quota (nameOf x) + if key == nameOf x then 1 else 0 := by
          rw [hx, beq_self_eq_true, if_pos rfl]
          omega
        rw [List.eraseP_cons_of_pos (by simpa using hx), allot, allot_congr hleft]
        simp only [htest, if_true]
      · have hcount : (nameOf x :: earlier).count key ≤ quota key := by
          rw [List.count_cons_of_ne hx]
          exact h
        have hquota : (quota (nameOf x) + if key == nameOf x then 1 else 0) =
            quota (nameOf x) := by
          simp [Ne.symm hx]
        rw [List.eraseP_cons_of_neg (by simpa using hx), allot, allot]
        simp only [hquota]
        split
        · exact ih hcount
        · simp only [ih hcount]

theorem allot_zero (earlier : List String) (xs : List α) :
    (allot nameOf (fun _ => 0) earlier xs).2 = xs := by
  induction xs generalizing earlier with
  | nil => rfl
  | cons x xs ih => simp [allot, ih]

end Allot

/-- The first of a list of names is allotted if it has a quota, and uses it up. -/
theorem allot_count_cons (names : List String) (key : String) (keys : List String) :
    allot id (fun n => names.count n) [] (key :: keys) =
      let (first, others) := allot id (fun n => (names.erase key).count n) [] keys
      if key ∈ names then (key :: first, others) else (first, key :: others) := by
  have hleft : ∀ n, names.count n - [key].count n =
      (names.erase key).count n - ([] : List String).count n := by
    intro n
    rw [List.count_erase, List.count_singleton, List.count_nil, Nat.sub_zero]
  have htest : ([] : List String).count key < names.count key ↔ key ∈ names := by
    rw [List.count_nil, List.count_pos_iff]
  rw [allot]
  simp only [id_eq, htest, allot_congr hleft]

theorem map_eraseP_name {α : Type} (nameOf : α → String) (key : String) (xs : List α) :
    (xs.eraseP (nameOf · == key)).map nameOf = (xs.map nameOf).erase key := by
  rw [List.erase_eq_eraseP', List.eraseP_map]
  rfl

/-! ## The pieces behind a cut -/

/-- The entry in `p`, if it has one of the names, does not uncover a member in the next
piece. -/
def Covers (names : List String) (p next : List Lexeme) : Prop :=
  ∀ m, member? p = some m → m.key.name ∈ names → ¬Uncovers p next

theorem covers_of_member?_eq_none {names : List String} {p : List Lexeme}
    (h : member? p = none) (next : List Lexeme) : Covers names p next := by
  intro m hm
  rw [h] at hm
  cases hm

theorem covers_gap_append_iff {names : List String} {gap q : List Lexeme}
    (hgap : ∀ l ∈ gap, l.isGap = true) (hproper : ∀ l ∈ q, ∃ next, StopsAt l next)
    (next : List Lexeme) : Covers names (gap ++ q) next ↔ Covers names q next := by
  cases hm : member? q with
  | none =>
      refine iff_of_true (covers_of_member?_eq_none ?_ next)
        (covers_of_member?_eq_none hm next)
      rw [member?_gap_append hgap, hm]
      rfl
  | some m =>
      have hends := endsInLine_append_iff (by rw [hm]; rfl) hproper gap
      simp [Covers, Uncovers, member?_gap_append hgap, hm, hends]

section Rejoined

variable {piece gap : List Lexeme} {ended : Prop} {after new : List (List Lexeme)}

/-- Behind a cut in a closed literal stand the same members, unless the entry uncovers
one. -/
theorem Rejoined.map_eq (h : Rejoined piece gap ended after new) (hended : ended)
    (hgap : ∀ l ∈ gap, l.isGap = true)
    (hcovers : ∀ next ∈ after.head?, ¬Uncovers piece next) {β : Type} {g : Member → β}
    (hg : ∀ m lead, g { m with lead := lead } = g m) :
    (new.filterMap member?).map g = (after.filterMap member?).map g := by
  cases h with
  | @kept q after hq _ =>
      have hall : ∀ l ∈ gap ++ q, l.isGap = true := by
        intro l hl
        rcases List.mem_append.mp hl with hl | hl
        · exact hgap l hl
        · exact hq hended l hl
      rw [map_filterMap_member?_cons, member?_gap hall]
      rfl
  | @merged blanks q after hiff =>
      rw [map_filterMap_member?_cons, map_filterMap_member?_cons,
        map_member?_gap_append hg hgap]
      rcases singles_append_cases (mt hiff.mpr (hcovers _ rfl)) with
        ⟨hq, hsingles⟩ | hblanks
      · rw [hq, hsingles]
      · rw [map_member?_gap_append hg hblanks]

theorem Rejoined.isChain_iff (h : Rejoined piece gap ended after new) (hended : ended)
    (hgap : ∀ l ∈ gap, l.isGap = true)
    (hproper : ∀ p ∈ after, ∀ l ∈ p, ∃ next, StopsAt l next)
    (hcovers : ∀ next ∈ after.head?, ¬Uncovers piece next) (names : List String) :
    new.IsChain (Covers names) ↔ after.IsChain (Covers names) := by
  cases h with
  | @kept q after hq _ =>
      rw [List.isChain_cons]
      refine and_iff_right fun next _ m hm => ?_
      rw [member?_gap_append hgap, member?_gap (hq hended)] at hm
      cases hm
  | @merged blanks q after hiff =>
      have hproperq : ∀ l ∈ q, ∃ next, StopsAt l next :=
        fun l hl => hproper (singles blanks ++ q) (by simp) l (by simp [hl])
      have hsame : ∀ next, Covers names (gap ++ q) next ↔
          Covers names (singles blanks ++ q) next := by
        intro next
        rw [covers_gap_append_iff hgap hproperq]
        rcases singles_append_cases (mt hiff.mpr (hcovers _ rfl)) with
          ⟨hq, hsingles⟩ | hblanks
        · exact iff_of_true (covers_of_member?_eq_none hq next)
            (covers_of_member?_eq_none hsingles next)
        · rw [covers_gap_append_iff hblanks hproperq]
      simp only [List.isChain_cons, hsame]

theorem Rejoined.length_eq (h : Rejoined piece gap ended after new)
    (hgap : ∀ l ∈ gap, l.isGap = true) {next : List Lexeme} (hnext : next ∈ after.head?)
    (huncovers : Uncovers piece next) :
    (new.filterMap member?).length = (after.filterMap member?).length + 1 := by
  cases h with
  | kept _ hcovers => exact (hcovers next hnext huncovers).elim
  | @merged blanks q after hiff =>
      obtain rfl : singles blanks ++ q = next := by simpa using hnext
      obtain ⟨hascii, hmember⟩ := hiff.mp huncovers
      rw [← isSome_member?_gap_append hgap] at hmember
      obtain ⟨m, hm⟩ := Option.isSome_iff_exists.mp hmember
      rw [List.filterMap_cons_some hm,
        List.filterMap_cons_none (member?_singles_append hascii q), List.length_cons]

end Rejoined

/-! ## Runs of cuts -/

/-- The entries of the members among some pieces. -/
def entriesOf (ps : List (List Lexeme)) : List (String × List Char) :=
  (ps.filterMap member?).map Member.entry

/-- The names of the members among some pieces. -/
def namesOf (ps : List (List Lexeme)) : List String :=
  (entriesOf ps).map Prod.fst

theorem namesOf_eq_erase {ps ps' : List (List Lexeme)} {key : String}
    (h : entriesOf ps' = (entriesOf ps).eraseP (·.1 == key)) :
    namesOf ps' = (namesOf ps).erase key := by
  rw [namesOf, h, map_eraseP_name, namesOf]

theorem LaidOut.entries_eq {marker text front : List Char} {body rest : List Lexeme}
    {ps : List (List Lexeme)} (h : LaidOut marker text front body ps rest)
    (hrest : rest ≠ []) :
    (literalOf Lexeme.name front marker body ps rest).entries text = entriesOf ps := by
  have hclosed : (!rest.isEmpty) = true := by simpa using hrest
  rw [StyleLiteral.entries, literalOf, hclosed, ← Text.size_append, h.text_eq_append]
  exact map_entry_spans h.layout (front ++ marker) (flatten rest)

theorem LaidOut.map_name_keys {marker text front : List Char} {body rest : List Lexeme}
    {ps : List (List Lexeme)} (h : LaidOut marker text front body ps rest) :
    (literalOf Lexeme.name front marker body ps rest).keys.map KeySpan.name =
      namesOf ps := by
  have hblocks := congrArg (List.map Prod.fst) h.map_block_keys
  simpa [namesOf, entriesOf, Function.comp_def, KeySpan.block, Member.block,
    Member.entry] using hblocks

theorem LaidOut.cut?_eq_none_iff {marker text front : List Char} {body rest : List Lexeme}
    {ps : List (List Lexeme)} (h : LaidOut marker text front body ps rest) {key : String} :
    cut? marker text key = none ↔ key ∉ namesOf ps := by
  have hspan : cut? marker text key = none ↔
      (literalOf Lexeme.name front marker body ps rest).key? key = none := by
    cases hkey : (literalOf Lexeme.name front marker body ps rest).key? key <;>
      simp [cut?, h.find?_eq, hkey]
  rw [hspan, ← h.map_name_keys, StyleLiteral.key?, List.find?_eq_none]
  simp

section Excision

variable {marker text out front : List Char} {key : String} {span : KeySpan}
  {body rest : List Lexeme} {ps : List (List Lexeme)}

/-- A cut takes one of its name and leaves all other names. -/
theorem Excision.erase_sublist (e : Excision marker text out front key span ps rest) :
    ((namesOf ps).erase key).Sublist (namesOf (e.before ++ e.new)) := by
  rw [namesOf, namesOf, ← map_eraseP_name]
  refine List.Sublist.map _ ?_
  rw [entriesOf, entriesOf, e.map_eraseP fun m => rfl, List.filterMap_append,
    List.map_append]
  exact (List.Sublist.refl _).append (e.rejoined.sublist (fun m lead => rfl) e.gap_isGap)

/-- A cut that uncovers nothing drops the first entry of its name. -/
theorem Excision.entriesOf_eq (e : Excision marker text out front key span ps rest)
    (hclosed : rest ≠ []) (hcovers : ∀ next ∈ e.after.head?, ¬Uncovers e.piece next) :
    entriesOf (e.before ++ e.new) = (entriesOf ps).eraseP (·.1 == key) := by
  rw [entriesOf, entriesOf, e.map_eraseP fun m => rfl, List.filterMap_append,
    List.map_append, e.rejoined.map_eq hclosed e.gap_isGap hcovers fun m lead => rfl]

/-- A cut that uncovers nothing leaves to the other entries what they uncover. -/
theorem Excision.isChain_iff (e : Excision marker text out front key span ps rest)
    (h : LaidOut marker text front body ps rest) (hclosed : rest ≠ [])
    (hcovers : ∀ next ∈ e.after.head?, ¬Uncovers e.piece next) (names : List String) :
    (e.before ++ e.new).IsChain (Covers names) ↔ ps.IsChain (Covers names) := by
  have hproper : ∀ p ∈ e.after, ∀ l ∈ p, ∃ next, StopsAt l next := by
    intro p hp l hl
    refine h.proper (h.layout.mem_body (p := p) ?_ hl)
    rw [e.pieces_eq]
    simp [hp]
  have hpiece : ¬HidesMember e.piece := by
    intro hhides
    have hmember := e.member_eq
    rw [hhides.member?_eq_none] at hmember
    cases hmember
  have hnew : ∀ p ∈ e.before.getLast?, ∀ next ∈ e.new.head?, Covers names p next :=
    fun p _ next hnext m _ _ huncovers => e.new_covers next hnext huncovers.2
  have hold : ∀ p ∈ e.before.getLast?, ∀ next ∈ (e.piece :: e.after).head?,
      Covers names p next := by
    intro p _ next hnext m _ _ huncovers
    obtain rfl : e.piece = next := by simpa using hnext
    exact hpiece huncovers.2
  have hnext : ∀ next ∈ e.after.head?, Covers names e.piece next :=
    fun next hnext m _ _ => hcovers next hnext
  conv_rhs => rw [e.pieces_eq]
  rw [List.isChain_append, List.isChain_append, List.isChain_cons,
    e.rejoined.isChain_iff hclosed e.gap_isGap hproper hcovers]
  tauto

theorem Excision.covers_of_isChain (e : Excision marker text out front key span ps rest)
    {names : List String} (h : ps.IsChain (Covers names)) (hkey : key ∈ names) :
    ∀ next ∈ e.after.head?, ¬Uncovers e.piece next := by
  intro next hnext
  rw [e.pieces_eq] at h
  have hcovers := (List.isChain_cons.mp (List.isChain_append.mp h).2.1).1 next hnext
  exact hcovers e.member e.member_eq (by rw [e.name_eq]; exact hkey)

/-- A cut that uncovers a member leaves as many as there were. -/
theorem Excision.length_namesOf (e : Excision marker text out front key span ps rest)
    {next : List Lexeme} (hnext : next ∈ e.after.head?)
    (huncovers : Uncovers e.piece next) :
    (namesOf (e.before ++ e.new)).length = (namesOf ps).length := by
  have hlength := e.rejoined.length_eq e.gap_isGap hnext huncovers
  conv_rhs => rw [e.pieces_eq]
  simp only [namesOf, entriesOf, List.length_map, List.filterMap_append, List.length_append,
    List.filterMap_cons_some e.member_eq, List.length_cons, hlength]

end Excision

/-- The literals in which cuts of some names are exact: closed, and such that none of
these entries uncovers a member. -/
structure Tidy (names : List String) (marker text front : List Char) (body : List Lexeme)
    (ps : List (List Lexeme)) (rest : List Lexeme) : Prop
    extends LaidOut marker text front body ps rest where
  closed : rest ≠ []
  covered : ps.IsChain (Covers names)

theorem Tidy.exists_of_cut? {names : List String} {marker text front out : List Char}
    {body rest : List Lexeme} {ps : List (List Lexeme)} {key : String}
    (h : Tidy names marker text front body ps rest) (hmarker : marker.getLast? = some '{')
    (hkey : key ∈ names) (hcut : cut? marker text key = some out) :
    ∃ body' ps', Tidy names marker out front body' ps' rest ∧
      entriesOf ps' = (entriesOf ps).eraseP (·.1 == key) := by
  obtain ⟨span, -, ⟨e⟩⟩ := h.exists_excision hmarker hcut
  have hcovers := e.covers_of_isChain h.covered hkey
  refine ⟨_, _, ⟨e.laidOut, h.closed, ?_⟩, e.entriesOf_eq h.closed hcovers⟩
  exact (e.isChain_iff h.toLaidOut h.closed hcovers names).mpr h.covered

/-- A run of cuts drops the first entries of each name, as many as it is listed. -/
theorem Tidy.exists_of_cutAll {names keys : List String} {marker text front : List Char}
    {body rest : List Lexeme} {ps : List (List Lexeme)}
    (h : Tidy names marker text front body ps rest) (hmarker : marker.getLast? = some '{')
    (hkeys : ∀ key ∈ keys, key ∈ names) :
    ∃ body' ps', Tidy names marker (cutAll marker text keys).text front body' ps' rest ∧
      entriesOf ps' = (allot Prod.fst (fun n => keys.count n) [] (entriesOf ps)).2 ∧
      ((cutAll marker text keys).removed, (cutAll marker text keys).missed) =
        allot id (fun n => (namesOf ps).count n) [] keys := by
  induction keys generalizing text body ps with
  | nil =>
      refine ⟨body, ps, h, ?_, rfl⟩
      simp only [List.count_nil, allot_zero]
  | cons key keys ih =>
      have hcount : (fun n => (key :: keys).count n) =
          fun n => keys.count n + if key == n then 1 else 0 :=
        funext fun n => List.count_cons
      rw [hcount, allot_eraseP (by simp), allot_count_cons, cutAll]
      cases hcut : cut? marker text key with
      | none =>
          have habsent := h.cut?_eq_none_iff.mp hcut
          have hsame : (entriesOf ps).eraseP (·.1 == key) = entriesOf ps := by
            refine List.eraseP_of_forall_not fun e he hkey => habsent ?_
            exact List.mem_map.mpr ⟨e, he, by simpa using hkey⟩
          obtain ⟨body', ps', htidy, hentries, hnames⟩ :=
            ih h fun k hk => hkeys k (by simp [hk])
          refine ⟨body', ps', htidy, by rw [hsame, hentries], ?_⟩
          rw [List.erase_of_not_mem habsent, ← hnames]
          simp [habsent]
      | some shorter =>
          have hpresent : key ∈ namesOf ps := by
            by_contra habsent
            rw [h.cut?_eq_none_iff.mpr habsent] at hcut
            cases hcut
          obtain ⟨body₁, ps₁, htidy₁, hentries₁⟩ :=
            h.exists_of_cut? hmarker (hkeys key (by simp)) hcut
          obtain ⟨body', ps', htidy, hentries, hnames⟩ :=
            ih htidy₁ fun k hk => hkeys k (by simp [hk])
          refine ⟨body', ps', htidy, by rw [hentries, hentries₁], ?_⟩
          rw [← namesOf_eq_erase hentries₁, ← hnames]
          simp [hpresent]

/-- Where all white space is ASCII, nothing is hidden. -/
theorem LaidOut.isChain_of_ascii {marker text front : List Char} {body rest : List Lexeme}
    {ps : List (List Lexeme)} (h : LaidOut marker text front body ps rest)
    (htext : ∀ c ∈ text, Text.isBlank c = true → Text.isAsciiBlank c = true)
    (names : List String) : ps.IsChain (Covers names) := by
  have hcovers : ∀ p ∈ ps, ¬HidesMember p := by
    rintro p hp ⟨line, q, rfl, hblank, ⟨c, hc, hascii⟩, -⟩
    have hmem : c ∈ text := by
      have hbody : ⟨singleKind c, [c]⟩ ∈ body := h.layout.mem_body hp
        (List.mem_append_left _ (List.mem_map.mpr ⟨c, hc, rfl⟩))
      rw [h.text_eq]
      refine List.mem_append_right _
        (List.mem_flatMap.mpr ⟨⟨singleKind c, [c]⟩, ?_, by simp⟩)
      exact List.mem_append_left _ hbody
    rw [htext c hmem (hblank c hc).1] at hascii
    cases hascii
  refine List.Pairwise.isChain (List.pairwise_of_forall_mem_list ?_)
  exact fun p _ next hnext m _ _ huncovers => hcovers next hnext huncovers.2

/-- In a closed literal of a text whose white space is ASCII, cutting keys drops for
each name as many entries, the first ones, as it is listed; all others keep their
order and their texts.  A listed name is removed as long as fewer earlier ones are
the same than there are entries of that name, and missed from then on. -/
theorem cutAll_entries {marker text : List Char} {literal : StyleLiteral}
    (keys : List String) (hmarker : marker.getLast? = some '{')
    (hfind : find? marker text = some literal) (hclosed : literal.terminated = true)
    (hblank : ∀ c ∈ text, Text.isBlank c = true → Text.isAsciiBlank c = true) :
    ∃ literal', find? marker (cutAll marker text keys).text = some literal' ∧
      literal'.start = literal.start ∧ literal'.terminated = true ∧
      literal'.entries (cutAll marker text keys).text =
        (allot Prod.fst (fun n => keys.count n) [] (literal.entries text)).2 ∧
      ((cutAll marker text keys).removed, (cutAll marker text keys).missed) =
        allot id (fun n => (literal.keys.map KeySpan.name).count n) [] keys := by
  obtain ⟨front, body, ps, rest, hlaid, rfl⟩ := find?_eq_some_iff.mp hfind
  have hrest : rest ≠ [] := by
    rintro rfl
    cases hclosed
  have htidy : Tidy keys marker text front body ps rest :=
    ⟨hlaid, hrest, hlaid.isChain_of_ascii hblank keys⟩
  obtain ⟨body', ps', htidy', hentries, hnames⟩ :=
    htidy.exists_of_cutAll hmarker fun _ hkey => hkey
  refine ⟨_, htidy'.find?_eq, rfl, hclosed, ?_, ?_⟩
  · rw [htidy'.entries_eq hrest, hlaid.entries_eq hrest, hentries]
  · rw [hnames, hlaid.map_name_keys]

theorem isAsciiBlank_of_all {text : List Char}
    (h : (text.all fun c => !Text.isBlank c || Text.isAsciiBlank c) = true) :
    ∀ c ∈ text, Text.isBlank c = true → Text.isAsciiBlank c = true := by
  intro c hc hblank
  have hboth := List.all_eq_true.mp h c hc
  simpa [hblank] using hboth

/-- Of three listed `a` two find an entry, and `c` finds none. -/
theorem cutAll_entries_repeated :
    let text := "({ a: {}, b: {}, a: {x} })".toList
    let cut := cutAll ['(', '{'] text ["a", "c", "a", "a"]
    cut.removed = ["a", "a"] ∧ cut.missed = ["c", "a"] ∧
      ∃ literal, find? ['(', '{'] cut.text = some literal ∧
        literal.entries cut.text = [("b", "b: {}".toList)] := by
  intro text cut
  have hread : find? ['(', '{'] text =
      some ⟨0, 26, [⟨"a", 3, 8, 8⟩, ⟨"b", 10, 15, 15⟩, ⟨"a", 17, 23, 23⟩], true⟩ := by
    decide +kernel
  obtain ⟨literal, hfind, -, -, hentries, hnames⟩ :=
    cutAll_entries ["a", "c", "a", "a"] (by decide +kernel) hread rfl
      (isAsciiBlank_of_all (by decide +kernel))
  obtain ⟨hremoved, hmissed⟩ := Prod.mk.inj hnames
  refine ⟨?_, ?_, literal, hfind, ?_⟩
  · rw [hremoved]
    decide +kernel
  · rw [hmissed]
    decide +kernel
  · rw [hentries]
    decide +kernel

end StylePrune.Literal
