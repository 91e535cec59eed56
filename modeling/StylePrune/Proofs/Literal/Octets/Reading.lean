import StylePrune.Proofs.Literal.Octets.Lexing
import StylePrune.Proofs.Literal.Reading

/-!
# The byte reader reads what the reader of lexemes reads

Between two lexemes the states of the two readers are the same, and the byte reader
stands where the text in front ends.  Most lexemes are one turn.  A word inside a value
takes one turn for each of its bytes, and so does a character beyond ASCII; nothing
changes in these turns after the first.
-/

namespace StylePrune.Literal.Octets

open Text

/-- The state of the byte reader that goes with a state of the reader of lexemes. -/
def State.of (s : Scan) : State :=
  ⟨s.depth, s.entry, s.openKey, if s.trailing then some (s.found.length - 1) else none,
    s.found.reverse⟩

/-- What holds of the reader between two lexemes, with the text in front of it. -/
structure Ready (front : List Char) (s : Scan) : Prop where
  depth : s.depth ≠ 0
  found : s.trailing = true → s.found ≠ []
  edge : s.trailing = true → s.edge = size (dropEndWhile isAsciiBlank front)

/-! ## States -/

theorem of_readName {s : Scan} (hdepth : s.depth = 1) (name : String) (pos : Nat) :
    State.of (s.readName name pos) = (State.of s).readName name pos := by
  obtain ⟨depth, entry, openKey, trailing, edge, found⟩ := s
  rw [Scan.readName, if_pos hdepth]
  cases entry <;> rfl

theorem readName_of_ne {s : State} (h : s.entry ≠ .key) (name : String) (i : Nat) :
    s.readName name i = { s with entry := .other } := by
  obtain ⟨depth, entry, openKey, trailing, keys⟩ := s
  cases entry with
  | key => exact (h rfl).elim
  | name | value | other => rfl

theorem of_readOther (s : Scan) : State.of s.readOther = (State.of s).readOther := by
  unfold Scan.readOther State.readOther
  by_cases hdepth : s.depth = 1
  · have hof : (State.of s).depth = 1 := hdepth
    rw [if_pos hdepth, if_pos hof]
    rfl
  · have hof : (State.of s).depth ≠ 1 := hdepth
    rw [if_neg hdepth, if_neg hof]

theorem of_readColon {s : Scan} (hdepth : s.depth = 1) :
    State.of s.readColon = (State.of s).readColon := by
  obtain ⟨depth, entry, openKey, trailing, edge, found⟩ := s
  rw [Scan.readColon, if_pos hdepth]
  cases entry <;> rfl

theorem of_openBrace (s : Scan) : State.of s.openBrace = (State.of s).openBrace := by
  obtain ⟨depth, entry, openKey, trailing, edge, found⟩ := s
  simp only [Scan.openBrace, State.openBrace, State.of]
  split
  · cases entry <;> rfl
  · rfl

/-- What the newest key takes into its entry is found behind it in both ways. -/
theorem closeEntry_of {text front back : List Char} (htext : text = front ++ back)
    {s : Scan} (h : Ready front s) :
    (State.of s).closeEntry (octets text) (size front) = .ok (State.of s.closeEntry) := by
  obtain ⟨depth, entry, openKey, trailing, edge, found⟩ := s
  cases trailing with
  | false => rfl
  | true =>
      cases found with
      | nil => exact (h.found rfl rfl).elim
      | cons key found =>
          have hkey : (key :: found).reverse[found.length]? = some key := by simp
          have hedge := h.edge rfl
          simp only at hedge
          simp [State.closeEntry, State.of, Scan.closeEntry, trimBack_eq htext, hedge]

theorem found_ne_nil_closeBrace {s : Scan} (h : s.trailing = true → s.found ≠ [])
    (pos : Nat) (htrailing : (s.closeBrace pos).trailing = true) :
    (s.closeBrace pos).found ≠ [] := by
  unfold Scan.closeBrace at htrailing ⊢
  dsimp only at htrailing ⊢
  split at htrailing
  · split at htrailing <;> simp_all
  · simp_all

theorem found_ne_nil_readComma {s : Scan} (h : s.trailing = true → s.found ≠ [])
    (htrailing : s.readComma.trailing = true) : s.readComma.found ≠ [] := by
  unfold Scan.readComma Scan.closeEntry at htrailing ⊢
  split at htrailing
  · split at htrailing <;> simp_all
  · simp_all

/-- Only a brace that closes a value and a comma between entries touch the keys. -/
theorem found_ne_nil_read {s : Scan} (h : s.trailing = true → s.found ≠ []) (pos : Nat)
    (l : Lexeme) (htrailing : (s.read pos l).trailing = true) :
    (s.read pos l).found ≠ [] := by
  cases hkind : l.kind <;> simp only [Scan.read, hkind] at htrailing ⊢
  case closing => exact found_ne_nil_closeBrace h pos htrailing
  case comma => exact found_ne_nil_readComma h htrailing
  case opening =>
    unfold Scan.openBrace at htrailing ⊢
    grind
  case quoted | word =>
    unfold Scan.readName at htrailing ⊢
    grind
  case template | other =>
    unfold Scan.readOther at htrailing ⊢
    grind
  case colon =>
    unfold Scan.readColon at htrailing ⊢
    grind
  case comment | blank => exact h htrailing

theorem depth_read_ne_zero {s : Scan} {l : Lexeme} (h : s.depth ≠ 0)
    (hstay : ¬(l.kind = .closing ∧ s.depth = 1)) (pos : Nat) :
    (s.read pos l).depth ≠ 0 := by
  cases hkind : l.kind <;>
    simp only [Scan.read, hkind, Scan.readName_depth, Scan.readOther_depth,
      Scan.readColon_depth, Scan.openBrace_depth, Scan.closeBrace_depth,
      Scan.readComma_depth]
  case closing =>
    have hone : s.depth ≠ 1 := fun hdepth => hstay ⟨hkind, hdepth⟩
    omega
  case opening => omega
  all_goals exact h

/-- A lexeme that does not close the literal leaves the reader ready for the next one. -/
theorem Ready.step {front : List Char} {s : Scan} (h : Ready front s) {l : Lexeme}
    {next : Option Char} (hstop : StopsAt l next)
    (hstay : ¬(l.kind = .closing ∧ s.depth = 1)) :
    Ready (front ++ l.chars) (s.step (size front) l) := by
  refine ⟨depth_read_ne_zero h.depth hstay _, found_ne_nil_read h.found _ l,
    fun htrailing => ?_⟩
  change s.edgeAfter (size front) l = _
  rw [Scan.edgeAfter]
  by_cases hblank : l.kind = .blank
  · obtain ⟨c, hc, hcblank⟩ := hstop.chars_of_blank hblank
    have hread : s.read (size front) l = s := by simp [Scan.read, hblank]
    have hsame : s.trailing = true := by rwa [Scan.step_eq, hread] at htrailing
    rw [if_pos hblank, h.edge hsame,
      dropEndWhile_append_of_all (by simpa [hc] using hcblank)]
  · obtain ⟨c, cs, hc, hcblank⟩ := hstop.exists_cons_of_not_blank hblank
    rw [if_neg hblank, dropEndWhile_append_of_exists ⟨c, by simp [hc], hcblank⟩,
      size_append]

/-! ## Turns -/

theorem run_next {text : List Char} {start i j : Nat} {s s' : State}
    (h : turn text start i s = .ok (.next j s')) (hi : i < (octets text).length)
    (hij : i < j) :
    run text start i s = run text start j s' := by
  conv_lhs => rw [run]
  rw [if_pos hi, h, ok_bind]
  exact if_pos hij

theorem lt_size_append {front back : List Char} (h : back ≠ []) :
    size front < size (front ++ back) := by
  obtain ⟨c, cs, rfl⟩ := List.exists_cons_of_ne_nil h
  have := c.utf8Size_pos
  simp only [size_append, size_cons]
  omega

/-- Bytes that begin no lexeme of their own and are no punctuation. -/
structure IsOrdinary (bytes : List UInt8) (i : Nat) (d : Char) : Prop where
  octet : octet? bytes i = some d
  slash : d = '/' → octet? bytes (i + 1) ≠ some '/' ∧ octet? bytes (i + 1) ≠ some '*'
  notMem : d ∉ ['\'', '"', '`', '{', '}']

theorem turn_of_ordinary {text : List Char} {start i : Nat} {d : Char} {s : State}
    (h : IsOrdinary (octets text) i d) :
    turn text start i s =
      if 1 < s.depth then .ok (.next (i + 1) s) else readOutside text d i s := by
  have hmem := h.notMem
  simp only [List.mem_cons, List.not_mem_nil, or_false, not_or] at hmem
  obtain ⟨hquote, hdouble, htick, hopen, hclose⟩ := hmem
  rw [turn, octetAt_eq h.octet, ok_bind, if_neg fun hd => (h.slash hd.1).1 hd.2,
    if_neg fun hd => (h.slash hd.1).2 hd.2, if_neg (by simp [hquote, hdouble]),
    if_neg htick, if_neg hopen, if_neg hclose]
  rfl

/-! ## Lexemes of more than one character -/

theorem octet?_next {text front cs : List Char} {c d : Char}
    (htext : text = front ++ c :: cs) (hc : ¬IsWide c) (hd : ¬IsWide d) :
    octet? (octets text) (size front + 1) = some d ↔ cs.head? = some d := by
  have hnext : text = front ++ [c] ++ cs := by simpa using htext
  rw [← size_concat_ascii front hc, hnext]
  exact octet?_size_iff hd

theorem turn_line {text front cs : List Char} (htext : text = front ++ '/' :: '/' :: cs)
    (start : Nat) (s : State) :
    turn text start (size front) s =
      .ok (.next (size (front ++ '/' :: '/' :: cs.takeWhile (· != '\n'))) s) := by
  have hnext := (octet?_next htext (d := '/') (by decide) (by decide)).mpr rfl
  rw [turn, octetAt_ascii htext (by decide), ok_bind, if_pos ⟨rfl, hnext⟩,
    lineCommentEnd_eq htext, ← size_append]
  rfl

theorem turn_block {text front cs : List Char} (htext : text = front ++ '/' :: '*' :: cs)
    (start : Nat) (s : State) :
    turn text start (size front) s =
      .ok (.next (size (front ++ '/' :: '*' :: (blockCommentRest cs).1)) s) := by
  have hnext := (octet?_next htext (d := '*') (by decide) (by decide)).mpr rfl
  have hsize : size front + 2 + size (blockCommentRest cs).1 =
      size (front ++ '/' :: '*' :: (blockCommentRest cs).1) := by
    rw [size_append, Nat.add_assoc, size_cons, size_cons,
      ← Nat.add_assoc ('/' : Char).utf8Size]
    rfl
  rw [turn, octetAt_ascii htext (by decide), ok_bind, if_neg (by rw [hnext]; decide),
    if_pos ⟨rfl, hnext⟩, blockCommentEnd_eq htext, hsize]
  rfl

theorem turn_tick {text front cs : List Char} (htext : text = front ++ '`' :: cs)
    (start : Nat) (s : State) :
    turn text start (size front) s =
      .ok (.next (size (front ++ '`' :: (templateRest 0 cs).1)) s.readOther) := by
  have hbehind : text = front ++ ['`'] ++ cs := by simpa using htext
  rw [turn, octetAt_ascii htext (by decide), ok_bind, if_neg (by simp), if_neg (by simp),
    if_neg (by decide), if_pos rfl, ← size_concat_ascii front (c := '`') (by decide),
    templateEnd_eq hbehind, ← size_append, List.append_assoc]
  rfl

theorem quotedClose_eq {text front body back : List Char} {quote : Char}
    (hquote : ¬IsWide quote) (htext : text = front ++ quote :: body ++ back) :
    quotedClose (octets text) quote (size front) (size (front ++ quote :: body)) =
      .ok (size (front ++ quote ::
        if body.getLast? = some quote then body.dropLast else body)) := by
  rw [quotedClose, ← size_concat_ascii front hquote]
  rcases List.eq_nil_or_concat' body with rfl | ⟨inner, c, rfl⟩
  · rw [if_neg (Nat.lt_irrefl _)]
    rfl
  · have hlt : size (front ++ [quote]) < size (front ++ quote :: (inner ++ [c])) := by
      have := c.utf8Size_pos
      simp
      omega
    have hhere : text = front ++ quote :: inner ++ c :: back := by simpa using htext
    have hconcat : front ++ quote :: (inner ++ [c]) = front ++ quote :: inner ++ [c] := by
      simp
    obtain ⟨d, hd, hdc⟩ := exists_octetAt_last hhere
    rw [if_pos hlt, hconcat, hd, ok_bind, List.getLast?_concat, List.dropLast_concat]
    by_cases hc : c = quote
    · have hascii : ¬IsWide c := hc ▸ hquote
      obtain rfl := hdc.eq_of_ascii hascii
      rw [if_pos hc, if_pos (congrArg some hc), size_concat_ascii _ hascii]
      rfl
    · rw [if_neg (hdc.ne hquote hc), if_neg fun h => hc (Option.some.inj h), hconcat]
      rfl

/-- The inside of a quoted string is cut out of the text between two characters. -/
theorem slice_quoted {text front body back : List Char} {quote : Char}
    (hquote : ¬IsWide quote) (htext : text = front ++ quote :: body ++ back) :
    slice text (size front + 1) (size (front ++ quote ::
        if body.getLast? = some quote then body.dropLast else body)) =
      .ok (if body.getLast? = some quote then body.dropLast else body) := by
  have hcut : ∀ inner rest, body = inner ++ rest →
      slice text (size front + 1) (size (front ++ quote :: inner)) = .ok inner := by
    rintro inner rest rfl
    have hparts : text = front ++ [quote] ++ inner ++ (rest ++ back) := by simpa using htext
    have hinner : front ++ quote :: inner = front ++ [quote] ++ inner := by simp
    rw [hinner, ← size_concat_ascii front hquote, hparts, slice_eq]
  split
  · rename_i hlast
    exact hcut _ [quote] (List.dropLast_append_getLast? quote hlast).symm
  · exact hcut _ [] (List.append_nil body).symm

theorem quotedName_cons (quote : Char) (body : List Char) :
    quotedName (quote :: body) =
      String.ofList (if body.getLast? = some quote then body.dropLast else body) := rfl

theorem turn_quote {text front cs : List Char} {quote : Char}
    (hquote : quote = '\'' ∨ quote = '"') (htext : text = front ++ quote :: cs)
    (start : Nat) (s : Scan) :
    turn text start (size front) (State.of s) =
      .ok (.next (size (front ++ quote :: (quotedRest quote cs).1))
        (State.of (s.readName (quotedName (quote :: (quotedRest quote cs).1))
          (size front)))) := by
  have hascii : ¬IsWide quote ∧ quote ≠ '/' := by
    rcases hquote with rfl | rfl
    all_goals decide
  have hbehind : text = front ++ [quote] ++ cs := by simpa using htext
  have hparts : text = front ++ quote :: (quotedRest quote cs).1 ++
      (quotedRest quote cs).2 := by
    rw [htext, List.append_assoc, List.cons_append, quotedRest_append]
  have hend : quotedEnd (octets text) quote (size front + 1) =
      .ok (size (front ++ quote :: (quotedRest quote cs).1)) := by
    rw [← size_concat_ascii front hascii.1, quotedEnd_eq hquote hbehind, ← size_append,
      List.append_assoc]
    rfl
  rw [turn, octetAt_ascii htext hascii.1, ok_bind, if_neg fun h => hascii.2 h.1,
    if_neg fun h => hascii.2 h.1, if_pos hquote, readQuoted, hend, ok_bind]
  by_cases hdepth : s.depth = 1
  · have hof : (State.of s).depth = 1 := hdepth
    rw [if_pos hof, of_readName hdepth]
    by_cases hentry : (State.of s).entry = .key
    · rw [if_pos hentry, quotedClose_eq hascii.1 hparts, ok_bind,
        slice_quoted hascii.1 hparts, ok_bind, quotedName_cons]
      rfl
    · rw [if_neg hentry, readName_of_ne hentry]
      rfl
  · have hof : (State.of s).depth ≠ 1 := hdepth
    rw [if_neg hof, Scan.readName, if_neg hdepth]
    rfl

/-! ## Words -/

theorem IsOrdinary.of_isWordPart {text front cs : List Char} {c : Char}
    (htext : text = front ++ c :: cs) (hc : isWordPart c = true) :
    IsOrdinary (octets text) (size front) c := by
  have hascii : ¬IsWide c := fun hwide => by simp [isWordPart_of_isWide hwide] at hc
  have hslash : c ≠ '/' := by
    rintro rfl
    exact absurd hc (by decide)
  refine ⟨htext ▸ (octet?_size_iff hascii).mpr rfl, fun h => (hslash h).elim,
    fun hmem => ?_⟩
  simp only [List.mem_cons, List.not_mem_nil, or_false] at hmem
  rcases hmem with rfl | rfl | rfl | rfl | rfl
  all_goals exact absurd hc (by decide)

/-- Inside a value a word is passed over byte by byte. -/
theorem run_word_nested {text front word back : List Char}
    (htext : text = front ++ word ++ back) (hword : ∀ c ∈ word, isWordPart c = true)
    (start : Nat) {s : State} (hdepth : 1 < s.depth) :
    run text start (size front) s = run text start (size (front ++ word)) s := by
  induction word generalizing front with
  | nil => rw [List.append_nil]
  | cons c word ih =>
      obtain ⟨hc, hrest⟩ := List.forall_mem_cons.mp hword
      have hhere : text = front ++ c :: (word ++ back) := by simpa using htext
      have hnext : text = front ++ [c] ++ word ++ back := by simpa using htext
      have hascii : ¬IsWide c := fun hwide => by simp [isWordPart_of_isWide hwide] at hc
      have hturn : turn text start (size front) s =
          .ok (.next (size (front ++ [c])) s) := by
        rw [turn_of_ordinary (.of_isWordPart hhere hc), if_pos hdepth,
          size_concat_ascii front hascii]
      rw [run_next hturn (lt_length_octets hhere) (lt_size_append (by simp)),
        ih hnext hrest, List.append_assoc, List.singleton_append]

theorem turn_word {text front cs : List Char} {c : Char} (htext : text = front ++ c :: cs)
    (hc : isWordStart c = true) (start : Nat) {s : Scan} (hdepth : s.depth = 1) :
    turn text start (size front) (State.of s) =
      .ok (.next (size (front ++ c :: cs.takeWhile isWordPart))
        (State.of (s.readName (String.ofList (c :: cs.takeWhile isWordPart))
          (size front)))) := by
  have hpart := isWordPart_of_isWordStart hc
  have hblank := isAsciiBlank_eq_false_of_isWordStart hc
  have hcomma : c ≠ ',' ∧ c ≠ ':' := by
    constructor
    all_goals
      rintro rfl
      exact absurd hc (by decide)
  have hparts : text = front ++ c :: cs.takeWhile isWordPart ++
      cs.dropWhile isWordPart := by
    simpa using htext
  have hend := skipWhile_rest_eq (fun c => isWordPart_of_isWide) htext
  rw [List.takeWhile_cons_of_pos hpart] at hend
  have hof : ¬1 < (State.of s).depth := Nat.not_lt_of_ge (Nat.le_of_eq hdepth)
  rw [turn_of_ordinary (.of_isWordPart htext hpart), if_neg hof, of_readName hdepth,
    readOutside, if_neg hcomma.1, if_neg hcomma.2, if_neg (by simp [hblank]), if_pos hc,
    hend, ok_bind]
  by_cases hentry : (State.of s).entry = .key
  · rw [if_pos hentry]
    nth_rewrite 1 [hparts]
    rw [slice_eq]
    rfl
  · rw [if_neg hentry, readName_of_ne hentry]
    rfl

/-! ## Single characters -/

theorem readOther_readOther (s : State) : s.readOther.readOther = s.readOther := by
  unfold State.readOther
  split <;> simp_all

theorem readOther_depth (s : State) : s.readOther.depth = s.depth := by
  unfold State.readOther
  split <;> rfl

theorem turn_wide {text : List Char} {i : Nat} {d : Char}
    (hd : octet? (octets text) i = some d) (hwide : IsWide d) (start : Nat) {s : State}
    (hs : s.depth ≠ 0) :
    turn text start i s = .ok (.next (i + 1) s.readOther) := by
  have hne : ∀ {c : Char}, ¬IsWide c → d ≠ c := fun hc => ne_of_isWide hwide hc
  have hstart : isWordStart d ≠ true := fun hstart => by
    simpa [isWordPart_of_isWide hwide] using isWordPart_of_isWordStart hstart
  have hordinary : IsOrdinary (octets text) i d := by
    refine ⟨hd, fun h => (hne (by decide) h).elim, fun hmem => ?_⟩
    simp only [List.mem_cons, List.not_mem_nil, or_false] at hmem
    rcases hmem with rfl | rfl | rfl | rfl | rfl
    all_goals exact absurd hwide (by decide)
  rw [turn_of_ordinary hordinary, State.readOther]
  by_cases hdepth : s.depth = 1
  · rw [if_neg (by omega), if_pos hdepth, readOutside, if_neg (hne (by decide)),
      if_neg (hne (by decide)), if_neg (by simp [isAsciiBlank_of_isWide hwide]),
      if_neg hstart]
    rfl
  · rw [if_pos (by omega), if_neg hdepth]

/-- A character beyond ASCII spoils an entry with its first byte. -/
theorem run_wide {text front cs : List Char} {c : Char} (htext : text = front ++ c :: cs)
    (hc : IsWide c) (start : Nat) {s : State} (hs : s.depth ≠ 0) :
    run text start (size front) s = run text start (size (front ++ [c])) s.readOther := by
  have hlength : ∀ {i d}, octet? (octets text) i = some d → i < (octets text).length := by
    intro i d hd
    simpa using lt_size_of_octet? hd
  -- once the entry is spoilt, the bytes that are left of the character change nothing
  have hpass : ∀ i d, octet? (octets text) i = some d → IsWide d →
      run text start i s.readOther = run text start (i + 1) s.readOther := by
    intro i d hd hwide
    have hturn := turn_wide hd hwide start (s := s.readOther) (by rwa [readOther_depth])
    rw [readOther_readOther] at hturn
    exact run_next hturn (hlength hd) (Nat.lt_succ_self i)
  obtain ⟨d, hd, hwide⟩ := exists_octet?_cons_wide hc cs c.utf8Size_pos
  rw [← octet?_append front, ← htext] at hd
  rw [run_next (turn_wide hd hwide start hs) (hlength hd) (Nat.lt_succ_self _)]
  exact skip_octet (f := fun i => run text start i s.readOther) htext hpass

/-- The braces of a value and of what is nested in it close. -/
theorem readClosing_of (text : List Char) (start i : Nat) {s : Scan}
    (hdepth : 1 < s.depth) :
    readClosing text start i (State.of s) =
      .ok (.next (i + 1) (State.of (s.closeBrace i))) := by
  obtain ⟨depth, entry, openKey, trailing, edge, found⟩ := s
  obtain ⟨d, rfl⟩ : ∃ d, depth = d + 2 := ⟨depth - 2, by simp only at hdepth; omega⟩
  cases d with
  | succ d => rfl
  | zero =>
      cases openKey with
      | none => rfl
      | some key => simp [readClosing, State.of, Scan.closeBrace]

/-- Between braces the punctuation moves the entry on, and anything else spoils it. -/
theorem readOutside_of {text front cs : List Char} {c : Char}
    (htext : text = front ++ c :: cs) {s : Scan} (h : Ready front s) (hdepth : s.depth = 1)
    (hword : isWordStart c = false) (hbrace : c ≠ '{' ∧ c ≠ '}') :
    readOutside text c (size front) (State.of s) =
      .ok (.next (size front + 1)
        (State.of (s.read (size front) ⟨singleKind c, [c]⟩))) := by
  have hof : (State.of s).depth = 1 := hdepth
  have hother : (State.of s).readOther = { State.of s with entry := .other } := if_pos hof
  rw [readOutside, singleKind, if_neg hbrace.1, if_neg hbrace.2]
  by_cases hcomma : c = ','
  · rw [if_pos hcomma, if_pos hcomma, closeEntry_of htext h]
    simp only [Scan.read, Scan.readComma, if_pos hdepth]
    rfl
  by_cases hcolon : c = ':'
  · rw [if_neg hcomma, if_neg hcomma, if_pos hcolon, if_pos hcolon, ← of_readColon hdepth]
    rfl
  by_cases hblank : isAsciiBlank c = true
  · rw [if_neg hcomma, if_neg hcomma, if_neg hcolon, if_neg hcolon, if_pos hblank,
      if_pos hblank]
    rfl
  · rw [if_neg hcomma, if_neg hcomma, if_neg hcolon, if_neg hcolon, if_neg hblank,
      if_neg hblank, if_neg (by simp [hword]), ← hother, ← of_readOther]
    rfl

/-- Inside a value only braces count. -/
theorem read_single_nested {s : Scan} (hdepth : 1 < s.depth) {c : Char}
    (hbrace : c ≠ '{' ∧ c ≠ '}') (pos : Nat) : s.read pos ⟨singleKind c, [c]⟩ = s := by
  have hne : s.depth ≠ 1 := by omega
  rw [singleKind, if_neg hbrace.1, if_neg hbrace.2]
  repeat' split
  all_goals simp [Scan.read, Scan.readComma, Scan.readColon, Scan.readOther, hne]

theorem turn_single {text front cs : List Char} {c : Char} (htext : text = front ++ c :: cs)
    (hc : IsSingle c cs.head?) (hascii : ¬IsWide c) (start : Nat) {s : Scan}
    (h : Ready front s) (hstay : ¬(singleKind c = .closing ∧ s.depth = 1)) :
    turn text start (size front) (State.of s) =
      .ok (.next (size (front ++ [c]))
        (State.of (s.read (size front) ⟨singleKind c, [c]⟩))) := by
  obtain ⟨hquote, hdouble, htick, hword, hslash⟩ := hc
  have hnext : ∀ {d}, ¬IsWide d → (octet? (octets text) (size front + 1) = some d ↔ _) :=
    octet?_next htext hascii
  have hcomment : c = '/' → octet? (octets text) (size front + 1) ≠ some '/' ∧
      octet? (octets text) (size front + 1) ≠ some '*' := by
    intro hc
    rw [Ne, Ne, hnext (by decide), hnext (by decide)]
    exact hslash hc
  have hzero := h.depth
  rw [size_concat_ascii front hascii]
  by_cases hopen : c = '{'
  · subst hopen
    rw [turn, octetAt_ascii htext hascii, ok_bind, if_neg (by simp), if_neg (by simp),
      if_neg (by decide), if_neg (by decide), if_pos rfl, ← of_openBrace]
    rfl
  by_cases hclose : c = '}'
  · subst hclose
    have hdepth : 1 < s.depth := by
      have hone : s.depth ≠ 1 := fun hone => hstay ⟨rfl, hone⟩
      omega
    rw [turn, octetAt_ascii htext hascii, ok_bind, if_neg (by simp), if_neg (by simp),
      if_neg (by decide), if_neg (by decide), if_neg (by decide), if_pos rfl,
      readClosing_of text start _ hdepth]
    rfl
  have hordinary : IsOrdinary (octets text) (size front) c :=
    ⟨htext ▸ (octet?_size_iff hascii).mpr rfl, hcomment, by simp [*]⟩
  rw [turn_of_ordinary hordinary]
  by_cases hdepth : s.depth = 1
  · have hof : ¬1 < (State.of s).depth := Nat.not_lt_of_ge (Nat.le_of_eq hdepth)
    rw [if_neg hof, readOutside_of htext h hdepth hword ⟨hopen, hclose⟩]
  · have hnested : 1 < s.depth := by omega
    have hof : 1 < (State.of s).depth := hnested
    rw [if_pos hof, read_single_nested hnested ⟨hopen, hclose⟩]

/-! ## The whole reader -/

theorem run_single {text front cs : List Char} {c : Char} (htext : text = front ++ c :: cs)
    (hc : IsSingle c cs.head?) (start : Nat) {s : Scan} (h : Ready front s)
    (hstay : ¬(singleKind c = .closing ∧ s.depth = 1)) :
    run text start (size front) (State.of s) =
      run text start (size (front ++ [c]))
        (State.of (s.read (size front) ⟨singleKind c, [c]⟩)) := by
  by_cases hwide : IsWide c
  · have hkind : singleKind c = .other := by
      have hne : ∀ {d : Char}, ¬IsWide d → c ≠ d := fun hd => ne_of_isWide hwide hd
      rw [singleKind, if_neg (hne (by decide)), if_neg (hne (by decide)),
        if_neg (hne (by decide)), if_neg (hne (by decide)),
        if_neg (by simp [isAsciiBlank_of_isWide hwide])]
    rw [run_wide htext hwide start h.depth, ← of_readOther, hkind]
    rfl
  · exact run_next (turn_single htext hc hwide start h hstay) (lt_length_octets htext)
      (lt_size_append (by simp))

theorem run_word {text front cs : List Char} {c : Char} (htext : text = front ++ c :: cs)
    (hc : isWordStart c = true) (start : Nat) {s : Scan} (hs : s.depth ≠ 0) :
    run text start (size front) (State.of s) =
      run text start (size (front ++ c :: cs.takeWhile isWordPart))
        (State.of
          (s.readName (String.ofList (c :: cs.takeWhile isWordPart)) (size front))) := by
  by_cases hdepth : s.depth = 1
  · exact run_next (turn_word htext hc start hdepth) (lt_length_octets htext)
      (lt_size_append (by simp))
  · have hparts : text = front ++ c :: cs.takeWhile isWordPart ++
        cs.dropWhile isWordPart := by
      simpa using htext
    have hword : ∀ d ∈ c :: cs.takeWhile isWordPart, isWordPart d = true :=
      List.forall_mem_cons.mpr
        ⟨isWordPart_of_isWordStart hc, fun d hd => List.mem_takeWhile_imp hd⟩
    have hnested : 1 < (State.of s).depth := by
      change 1 < s.depth
      omega
    rw [run_word_nested hparts hword start hnested, Scan.readName, if_neg hdepth]

/-- The byte reader comes from one lexeme to the next with the state that the lexeme
leaves. -/
theorem run_lexeme {text front cs : List Char} {c : Char} (htext : text = front ++ c :: cs)
    (start : Nat) {s : Scan} (h : Ready front s)
    (hstay : ¬((nextLexeme c cs).1.kind = .closing ∧ s.depth = 1)) :
    run text start (size front) (State.of s) =
      run text start (size (front ++ (nextLexeme c cs).1.chars))
        (State.of (s.step (size front) (nextLexeme c cs).1)) := by
  have hof : ∀ l, State.of (s.step (size front) l) = State.of (s.read (size front) l) :=
    fun _ => rfl
  have hlt := lt_length_octets htext
  have hmove : ∀ l : Lexeme, l.chars ≠ [] → size front < size (front ++ l.chars) :=
    fun _ => lt_size_append
  rw [hof]
  by_cases hquote : c = '\'' ∨ c = '"'
  · rw [nextLexeme_quote hquote]
    exact run_next (turn_quote hquote htext start s) hlt (hmove _ (by simp))
  by_cases htick : c = '`'
  · subst htick
    rw [nextLexeme_tick]
    refine run_next ?_ hlt (hmove _ (by simp))
    rw [turn_tick htext, ← of_readOther]
    rfl
  by_cases hword : isWordStart c = true
  · rw [nextLexeme_word hword]
    exact run_word htext hword start h.depth
  by_cases hslash : c = '/' ∧ (cs.head? = some '/' ∨ cs.head? = some '*')
  · obtain ⟨rfl, hline | hblock⟩ := hslash
    · obtain ⟨cs, rfl⟩ := List.head?_eq_some_iff.mp hline
      rw [nextLexeme_line]
      exact run_next (turn_line htext start _) hlt (hmove _ (by simp))
    · obtain ⟨cs, rfl⟩ := List.head?_eq_some_iff.mp hblock
      rw [nextLexeme_block]
      exact run_next (turn_block htext start _) hlt (hmove _ (by simp))
  · have hsingle : IsSingle c cs.head? := by
      rw [not_or] at hquote
      refine ⟨hquote.1, hquote.2, htick, by simpa using hword, fun hc => ?_⟩
      exact ⟨fun h => hslash ⟨hc, Or.inl h⟩, fun h => hslash ⟨hc, Or.inr h⟩⟩
    rw [nextLexeme_single hsingle] at hstay ⊢
    exact run_single htext hsingle start h hstay

theorem run_closing {text front cs : List Char} (htext : text = front ++ '}' :: cs)
    (start : Nat) {s : Scan} (h : Ready front s) (hdepth : s.depth = 1) :
    run text start (size front) (State.of s) =
      .ok ⟨start, size front + 1 + closingSize cs, s.closeEntry.found.reverse, true⟩ := by
  have hof : (State.of s).depth = 1 := hdepth
  have hnext : text = front ++ ['}'] ++ cs := by simpa using htext
  have hclosing : readClosing text start (size front) (State.of s) =
      .ok (.done ⟨start, size front + 1 + closingSize cs,
        s.closeEntry.found.reverse, true⟩) := by
    rw [readClosing, hof]
    simp only
    rw [closeEntry_of htext h, ok_bind, ← size_concat_ascii front (c := '}') (by decide),
      closingEnd_eq hnext]
    rfl
  have hturn : turn text start (size front) (State.of s) =
      readClosing text start (size front) (State.of s) := by
    rw [turn, octetAt_ascii htext (by decide), ok_bind, if_neg (by simp), if_neg (by simp),
      if_neg (by decide), if_neg (by decide), if_neg (by decide), if_pos rfl]
  rw [run, if_pos (lt_length_octets htext), hturn, hclosing]
  rfl

/-- The byte reader and the reader of lexemes find the same literal, and the byte reader
never fails. -/
theorem run_eq {text front cs : List Char} (htext : text = front ++ cs) (start : Nat)
    {s : Scan} (h : Ready front s) :
    run text start (size front) (State.of s) =
      .ok (readEntries start s (size front) (lexemes cs)) := by
  fun_induction lexemes cs generalizing front s with
  | case1 =>
      rw [run, if_neg (by simp [htext])]
      simp [htext, readEntries, State.of]
  | case2 c cs ih =>
      have hstop := stopsAt_nextLexeme c cs
      rw [readEntries]
      by_cases hend : (nextLexeme c cs).1.kind = .closing ∧ s.depth = 1
      · -- the brace that closes the literal: `Ready` keeps the depth from zero up to here
        have hchars := hstop.chars_of_punctuation (Or.inr rfl) hend.1
        have hsplit := nextLexeme_append c cs
        rw [hchars, List.singleton_append] at hsplit
        obtain ⟨rfl, hrest⟩ := List.cons.inj hsplit
        rw [if_pos hend, run_closing htext start h hend.2, flatMap_chars_lexemes, hrest]
      · have hbehind : text = front ++ (nextLexeme c cs).1.chars ++
            (nextLexeme c cs).2 := by
          rw [htext, List.append_assoc, nextLexeme_append]
        rw [if_neg hend, run_lexeme htext start h hend, ih hbehind (h.step hstop hend),
          size_append]

/-- The byte reader finds what the reader of lexemes finds, in every text and for every
marker. -/
theorem find?_eq (marker text : List Char) :
    find? marker text = .ok (Literal.find? marker text) := by
  rw [find?, Literal.find?]
  cases hsplit : splitFirst marker text with
  | none => rfl
  | some parts =>
      obtain ⟨front, back⟩ := parts
      have htext : text = front ++ marker ++ back := splitFirst_eq_some hsplit
      have hready : Ready (front ++ marker)
          ⟨1, .key, none, false, size front + size marker, []⟩ :=
        ⟨Nat.one_ne_zero, Bool.noConfusion, Bool.noConfusion⟩
      have hrun := run_eq htext (size front) hready
      rw [size_append] at hrun
      simp only [Option.map_some]
      exact congrArg (Except.map some) hrun

end StylePrune.Literal.Octets
