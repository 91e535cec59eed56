import StylePrune.Literal.Cut
import StylePrune.Proofs.Text.Runs

/-!
# What goes with an entry

The text around an entry that is cut is joined by `closeGap`, which looks at
lines.  Whatever lines it meets, it keeps a part of the text in front and a
part of the text behind, and drops between them nothing but white space and at
most one comma.  The three ways to join are taken apart here and nowhere else.
-/

namespace StylePrune.Literal

/-- A line ending of two characters would be torn apart between the two texts. -/
def SplitsReturn (front back : List Char) : Prop :=
  front.getLast? = some '\r' ∧ back.head? = some '\n'

/-- White space, with at most one comma behind spaces and tabs. -/
def IsSeparator (cs : List Char) : Prop :=
  (∀ c ∈ cs, Text.isBlank c = true) ∨
    ∃ tabs blanks, cs = tabs ++ ',' :: blanks ∧ (∀ c ∈ tabs, Text.isTab c = true) ∧
      ∀ c ∈ blanks, Text.isBlank c = true

/-- Spaces and tabs, with at most one comma among them. -/
def IsPadding (cs : List Char) : Prop :=
  (∀ c ∈ cs, Text.isTab c = true) ∨
    ∃ tabs tabs', cs = tabs ++ ',' :: tabs' ∧ (∀ c ∈ tabs, Text.isTab c = true) ∧
      ∀ c ∈ tabs', Text.isTab c = true

/-- The first line of a text, and what stands below it with the line feed in front. -/
structure FirstLine (text line below : List Char) : Prop where
  text_eq : text = line ++ below
  newline : '\n' ∉ line
  below : below = [] ∨ ∃ rest, below = '\n' :: rest

/-- The line behind an entry, taken apart: what is dropped in any case, what is left,
the carriage return of the line's ending, and the lines below. -/
structure SplitsLine (back dropped line ending below : List Char) : Prop where
  firstLine : FirstLine back (dropped ++ line ++ ending) below
  padding : IsPadding dropped
  head : ∀ c, line.head? = some c → Text.isTab c = false ∧ (',' ∉ dropped → c ≠ ',')
  ending : ending = ['\r'] ∨ ending = [] ∧ (dropped ++ line).getLast? ≠ some '\r'

/-- The three ways to join the text in front of an entry and the text behind it: with
other text behind on the last line, with the lines to itself, and with other text
in front on the first line. -/
inductive Joins (front dropped line ending below : List Char) :
    List Char → List Char → List Char → List Char → Prop where
  | behind : (∃ c ∈ line, Text.isBlank c = false) →
      Joins front dropped line ending below front [] dropped (line ++ ending ++ below)
  | alone : (∀ c ∈ line, Text.isBlank c = true) →
      (∀ c ∈ Text.lastLine front, Text.isBlank c = true) →
      Joins front dropped line ending below (Text.upToLastLine front) (Text.lastLine front)
        (dropped ++ (line ++ ending ++ below.take 1)) (below.drop 1)
  | before {kept tabs : List Char} : (∀ c ∈ line, Text.isBlank c = true) →
      front = kept ++ tabs → (∀ c ∈ tabs, Text.isTab c = true) →
      Joins front dropped line ending below kept tabs (dropped ++ line) (ending ++ below)

/-- `front` and `back` are joined without `lead` and `trail`. -/
def ClosesGap (front back kept lead trail rest : List Char) : Prop :=
  ∃ dropped line ending below, SplitsLine back dropped line ending below ∧
    Joins front dropped line ending below kept lead trail rest

/-! ## White space -/

theorem isBlank_of_isTab {c : Char} (h : Text.isTab c = true) : Text.isBlank c = true := by
  simp only [Text.isTab, Bool.or_eq_true, beq_iff_eq] at h
  rcases h with rfl | rfl <;> decide

theorem isBlank_of_isAsciiBlank {c : Char} (h : Text.isAsciiBlank c = true) :
    Text.isBlank c = true := by
  simp only [Text.isAsciiBlank, Bool.or_eq_true, beq_iff_eq] at h
  rcases h with (((rfl | rfl) | rfl) | rfl) | rfl <;> decide

theorem newline_not_mem_lastLine (text : List Char) : '\n' ∉ Text.lastLine text := by
  intro h
  simpa using List.mem_takeWhile_imp (List.mem_reverse.mp h)

/-! ## The line behind an entry -/

theorem FirstLine.takeWhile_eq {text line below : List Char}
    (h : FirstLine text line below) :
    text.takeWhile (· != '\n') = line := by
  rw [h.text_eq]
  refine Text.takeWhile_append_eq (fun c hc => ?_) fun c hc => ?_
  · simpa using fun heq : c = '\n' => h.newline (heq ▸ hc)
  · rcases h.below with hnil | ⟨rest, hbelow⟩
    · simp [hnil] at hc
    · obtain rfl : '\n' = c := by simpa [hbelow] using hc
      decide

theorem FirstLine.unique {text line below line' below' : List Char}
    (h : FirstLine text line below) (h' : FirstLine text line' below') :
    line = line' ∧ below = below' := by
  obtain rfl : line = line' := h.takeWhile_eq.symm.trans h'.takeWhile_eq
  exact ⟨rfl, List.append_cancel_left (h.text_eq.symm.trans h'.text_eq)⟩

theorem dropSeparator_cases (line : List Char) :
    ∃ dropped, line = dropped ++ dropSeparator line ∧ IsPadding dropped ∧
      ∀ c, (dropSeparator line).head? = some c →
        Text.isTab c = false ∧ (',' ∉ dropped → c ≠ ',') := by
  have hline := List.takeWhile_append_dropWhile (p := Text.isTab) (l := line)
  have htabs : ∀ c ∈ line.takeWhile Text.isTab, Text.isTab c = true :=
    fun c hc => List.mem_takeWhile_imp hc
  unfold dropSeparator
  split
  · rename_i rest hrest
    refine ⟨line.takeWhile Text.isTab ++ ',' :: rest.takeWhile Text.isTab, ?_,
      Or.inr ⟨_, _, rfl, htabs, fun c hc => List.mem_takeWhile_imp hc⟩, ?_⟩
    · rw [List.append_assoc, List.cons_append, List.takeWhile_append_dropWhile, ← hrest,
        hline]
    · intro c hc
      exact ⟨Text.head?_dropWhile_eq_false hc, fun hcomma => absurd hcomma (by simp)⟩
  · rename_i hrest
    refine ⟨line.takeWhile Text.isTab, hline.symm, Or.inl htabs, fun c hc => ?_⟩
    refine ⟨Text.head?_dropWhile_eq_false hc, ?_⟩
    rintro - rfl
    obtain ⟨rest, hcomma⟩ := List.head?_eq_some_iff.mp hc
    exact hrest rest hcomma

theorem splitReturn_cases (line : List Char) :
    ∃ body ending, splitReturn line = (body, ending) ∧ line = body ++ ending ∧
      (ending = ['\r'] ∨ ending = [] ∧ body.getLast? ≠ some '\r') := by
  unfold splitReturn
  split
  · rename_i hlast
    obtain ⟨body, rfl⟩ := List.getLast?_eq_some_iff.mp hlast
    exact ⟨body, ['\r'], by simp, rfl, Or.inl rfl⟩
  · rename_i hlast
    exact ⟨line, [], rfl, by simp, Or.inr ⟨rfl, hlast⟩⟩

theorem firstLine_restOfLine (text : List Char) :
    FirstLine text (restOfLine text).1 (restOfLine text).2 := by
  refine ⟨List.takeWhile_append_dropWhile.symm, ?_, ?_⟩
  · intro h
    simpa using List.mem_takeWhile_imp h
  · change text.dropWhile (· != '\n') = [] ∨
      ∃ rest, text.dropWhile (· != '\n') = '\n' :: rest
    cases hbelow : text.dropWhile (· != '\n') with
    | nil => exact Or.inl rfl
    | cons c rest =>
        have hhead : (text.dropWhile (· != '\n')).head? = some c := by rw [hbelow]; rfl
        obtain rfl : c = '\n' := by simpa using Text.head?_dropWhile_eq_false hhead
        exact Or.inr ⟨rest, rfl⟩

/-- The line behind an entry can be taken apart. -/
theorem exists_splitsLine (back : List Char) :
    ∃ dropped line ending below, SplitsLine back dropped line ending below := by
  have hfirst := firstLine_restOfLine back
  obtain ⟨line₁, ending, -, hline₀, hending⟩ := splitReturn_cases (restOfLine back).1
  obtain ⟨dropped, hline, hdropped, hhead⟩ := dropSeparator_cases line₁
  rw [hline₀, hline] at hfirst
  rw [hline] at hending
  exact ⟨_, _, _, _, hfirst, hdropped, hhead, hending⟩

/-- Joins the text in front of an entry and the line behind it, when that is taken apart. -/
def joinLines (front line ending below : List Char) : List Char :=
  if Text.trim line ≠ [] then
    front ++ line ++ ending ++ below
  else if Text.trim (Text.lastLine front) = [] then
    Text.upToLastLine front ++ below.drop 1
  else
    Text.dropEndWhile Text.isTab front ++ ending ++ below

theorem splitReturn_append {line ending : List Char}
    (h : ending = ['\r'] ∨ ending = [] ∧ line.getLast? ≠ some '\r') :
    splitReturn (line ++ ending) = (line, ending) := by
  rcases h with rfl | ⟨rfl, hlast⟩
  · simp [splitReturn]
  · rw [List.append_nil, splitReturn, if_neg hlast]

theorem dropSeparator_append {dropped line : List Char} (h : IsPadding dropped)
    (hline : ∀ c, line.head? = some c → Text.isTab c = false ∧ (',' ∉ dropped → c ≠ ',')) :
    dropSeparator (dropped ++ line) = line := by
  have hstop : ∀ c, line.head? = some c → Text.isTab c = false := fun c hc => (hline c hc).1
  rcases h with htabs | ⟨tabs, tabs', rfl, htabs, htabs'⟩
  · rw [dropSeparator, Text.dropWhile_append_eq htabs hstop]
    split
    · refine absurd rfl ((hline ',' rfl).2 fun hmem => ?_)
      exact absurd (htabs _ hmem) (by decide)
    · rfl
  · rw [List.append_assoc, List.cons_append, dropSeparator,
      Text.dropWhile_append_eq htabs (by simp [Text.isTab])]
    exact Text.dropWhile_append_eq htabs' hstop

theorem SplitsLine.closeGap_eq {back dropped line ending below : List Char}
    (h : SplitsLine back dropped line ending below) (front : List Char) :
    closeGap front back = joinLines front line ending below := by
  have hrest : restOfLine back = (dropped ++ line ++ ending, below) := by
    have hunique := (firstLine_restOfLine back).unique h.firstLine
    exact Prod.ext hunique.1 hunique.2
  have hreturn := splitReturn_append h.ending
  have hline := dropSeparator_append h.padding h.head
  simp only [closeGap, hrest, hreturn, hline]
  rfl

/-- However a gap is closed, it is closed in one of the three ways. -/
theorem closeGap_cases (front back : List Char) :
    ∃ kept lead trail rest,
      closeGap front back = kept ++ rest ∧ ClosesGap front back kept lead trail rest := by
  obtain ⟨dropped, line, ending, below, hsplit⟩ := exists_splitsLine back
  rw [hsplit.closeGap_eq, joinLines]
  by_cases hblank : Text.trim line = []
  · rw [if_neg (by simpa using hblank)]
    by_cases hlast : Text.trim (Text.lastLine front) = []
    · rw [if_pos hlast]
      exact ⟨_, _, _, _, rfl, _, _, _, _, hsplit,
        .alone (Text.trim_eq_nil_iff.mp hblank) (Text.trim_eq_nil_iff.mp hlast)⟩
    · rw [if_neg hlast]
      obtain ⟨tabs, hfront, htabs⟩ := Text.exists_dropEndWhile_append Text.isTab front
      exact ⟨_, _, _, _, List.append_assoc .., _, _, _, _, hsplit,
        .before (Text.trim_eq_nil_iff.mp hblank) hfront htabs⟩
  · rw [if_pos hblank]
    refine ⟨_, _, _, _, by simp, _, _, _, _, hsplit, .behind ?_⟩
    rw [Text.trim_eq_nil_iff] at hblank
    simpa using hblank

/-! ## What the three ways have in common -/

theorem IsPadding.isSeparator_append {dropped blanks : List Char} (h : IsPadding dropped)
    (hblanks : ∀ c ∈ blanks, Text.isBlank c = true) : IsSeparator (dropped ++ blanks) := by
  rcases h with htabs | ⟨tabs, tabs', rfl, htabs, htabs'⟩
  · refine Or.inl fun c hc => ?_
    rcases List.mem_append.mp hc with hc | hc
    · exact isBlank_of_isTab (htabs c hc)
    · exact hblanks c hc
  · refine Or.inr ⟨tabs, tabs' ++ blanks, by simp, htabs, fun c hc => ?_⟩
    rcases List.mem_append.mp hc with hc | hc
    · exact isBlank_of_isTab (htabs' c hc)
    · exact hblanks c hc

theorem IsPadding.getLast?_ne {dropped : List Char} (h : IsPadding dropped) :
    dropped.getLast? ≠ some '\r' := by
  intro hlast
  have hmem := List.mem_of_getLast? hlast
  rcases h with htabs | ⟨tabs, tabs', rfl, htabs, htabs'⟩
  · exact absurd (htabs _ hmem) (by decide)
  · rcases List.mem_append.mp hmem with hmem | hmem
    · exact absurd (htabs _ hmem) (by decide)
    · rcases List.mem_cons.mp hmem with hcomma | hmem
      · exact absurd hcomma (by decide)
      · exact absurd (htabs' _ hmem) (by decide)

theorem SplitsLine.ending_blank {back dropped line ending below : List Char}
    (h : SplitsLine back dropped line ending below) :
    ∀ c ∈ ending ++ below.take 1, Text.isAsciiBlank c = true := by
  intro c hc
  rcases List.mem_append.mp hc with hc | hc
  · rcases h.ending with rfl | ⟨rfl, -⟩
    · obtain rfl := List.mem_singleton.mp hc
      decide
    · cases hc
  · rcases h.firstLine.below with rfl | ⟨rest, rfl⟩
    · cases hc
    · obtain rfl := List.mem_singleton.mp hc
      decide

/-- What is dropped in any case includes a comma that only spaces and tabs part from
the entry. -/
theorem SplitsLine.comma {back dropped left ending below : List Char}
    (h : SplitsLine back dropped left ending below) {tabs behind line below' : List Char}
    (hback : back = tabs ++ ',' :: behind) (htabs : ∀ c ∈ tabs, Text.isTab c = true)
    (hline : FirstLine behind line below') :
    ∃ tabs', dropped = tabs ++ ',' :: tabs' ∧ (∀ c ∈ tabs', Text.isTab c = true) ∧
      line = tabs' ++ left ++ ending ∧ below' = below := by
  have hfirst : FirstLine back (tabs ++ ',' :: line) below' := by
    refine ⟨by rw [hback, hline.text_eq]; simp, fun hmem => ?_, hline.below⟩
    rcases List.mem_append.mp hmem with hmem | hmem
    · exact absurd (htabs _ hmem) (by decide)
    · exact hline.newline (by simpa using hmem)
  obtain ⟨heq, rfl⟩ := h.firstLine.unique hfirst
  have hrun : (tabs ++ ',' :: line).takeWhile Text.isTab = tabs :=
    Text.takeWhile_append_eq htabs (by simp [Text.isTab])
  rw [List.append_assoc] at heq
  rcases h.padding with hpadding | ⟨tabs₁, tabs', rfl, htabs₁, htabs'⟩
  · -- the run of spaces and tabs would end with the comma
    have hhead : ∀ c, (left ++ ending).head? = some c → Text.isTab c = false ∧ c ≠ ',' := by
      intro c hc
      cases left with
      | nil =>
          rcases h.ending with rfl | ⟨rfl, -⟩
          · obtain rfl : '\r' = c := by simpa using hc
            decide
          · cases hc
      | cons d left =>
          obtain ⟨htab, hcomma⟩ := h.head c hc
          exact ⟨htab, hcomma fun hmem => absurd (hpadding _ hmem) (by decide)⟩
    have hdropped := Text.takeWhile_append_eq hpadding fun c hc => (hhead c hc).1
    rw [heq, hrun] at hdropped
    subst hdropped
    have hcomma := congrArg List.head? (List.append_cancel_left heq)
    exact absurd rfl (hhead ',' hcomma).2
  · have hdropped : (tabs₁ ++ ',' :: (tabs' ++ (left ++ ending))).takeWhile Text.isTab =
        tabs₁ :=
      Text.takeWhile_append_eq htabs₁ (by simp [Text.isTab])
    rw [List.append_assoc, List.cons_append] at heq
    rw [heq, hrun] at hdropped
    subst hdropped
    refine ⟨tabs', rfl, htabs', ?_, rfl⟩
    rw [List.append_assoc]
    exact (List.cons.inj (List.append_cancel_left heq)).2.symm

namespace ClosesGap

variable {front back kept lead trail rest : List Char}

theorem front_eq (h : ClosesGap front back kept lead trail rest) :
    front = kept ++ lead := by
  obtain ⟨dropped, line, ending, below, -, hjoins⟩ := h
  cases hjoins with
  | behind _ => simp
  | alone _ _ => exact (Text.upToLastLine_append_lastLine front).symm
  | before _ hfront _ => exact hfront

theorem back_eq (h : ClosesGap front back kept lead trail rest) : back = trail ++ rest := by
  obtain ⟨dropped, line, ending, below, hsplit, hjoins⟩ := h
  rw [hsplit.firstLine.text_eq]
  cases hjoins with
  | behind _ => simp
  | alone _ _ => simp only [List.append_assoc, List.take_append_drop]
  | before _ _ _ => simp

theorem lead_blank (h : ClosesGap front back kept lead trail rest) :
    ∀ c ∈ lead, Text.isBlank c = true ∧ c ≠ '\n' := by
  obtain ⟨dropped, line, ending, below, -, hjoins⟩ := h
  intro c hc
  cases hjoins with
  | behind _ => cases hc
  | alone _ hlast =>
      refine ⟨hlast c hc, ?_⟩
      rintro rfl
      exact newline_not_mem_lastLine front hc
  | before _ _ htabs =>
      refine ⟨isBlank_of_isTab (htabs c hc), ?_⟩
      rintro rfl
      exact absurd (htabs _ hc) (by decide)

theorem trail_separator (h : ClosesGap front back kept lead trail rest) :
    IsSeparator trail := by
  obtain ⟨dropped, line, ending, below, hsplit, hjoins⟩ := h
  cases hjoins with
  | behind _ =>
      have hnone : ∀ c ∈ ([] : List Char), Text.isBlank c = true := by simp
      simpa using hsplit.padding.isSeparator_append hnone
  | alone hblank _ =>
      refine hsplit.padding.isSeparator_append fun c hc => ?_
      rw [List.append_assoc] at hc
      rcases List.mem_append.mp hc with hc | hc
      · exact hblank c hc
      · exact isBlank_of_isAsciiBlank (hsplit.ending_blank c hc)
  | before hblank _ _ => exact hsplit.padding.isSeparator_append hblank

theorem not_splitsReturn (h : ClosesGap front back kept lead trail rest) :
    ¬SplitsReturn trail rest := by
  obtain ⟨dropped, line, ending, below, hsplit, hjoins⟩ := h
  rintro ⟨hreturn, hhead⟩
  cases hjoins with
  | behind _ => exact hsplit.padding.getLast?_ne hreturn
  | alone _ _ =>
      rcases hsplit.firstLine.below with rfl | ⟨below, rfl⟩
      · cases hhead
      · simp at hreturn
  | before _ _ _ =>
      rcases hsplit.ending with rfl | ⟨rfl, hending⟩
      · simp at hhead
      · exact hending hreturn

/-- A comma that only spaces and tabs part from the entry goes.  If the line behind it
is blank, it goes too, as far as its ending, which may stay or go. -/
theorem comma_line (h : ClosesGap front back kept lead trail rest)
    {tabs behind line below : List Char} (hback : back = tabs ++ ',' :: behind)
    (htabs : ∀ c ∈ tabs, Text.isTab c = true) (hline : FirstLine behind line below) :
    ∃ blanks, trail = tabs ++ ',' :: blanks ∧
      ((∃ c ∈ line, Text.isBlank c = false) ∧ (∀ c ∈ blanks, Text.isTab c = true) ∨
        (∀ c ∈ line, Text.isBlank c = true) ∧ ∃ ending,
          (∀ c ∈ ending, Text.isAsciiBlank c = true) ∧
            (blanks = line ++ ending ∨ line = blanks ++ ending)) := by
  obtain ⟨dropped, left, ending, below', hsplit, hjoins⟩ := h
  obtain ⟨tabs', rfl, htabs', rfl, rfl⟩ := hsplit.comma hback htabs hline
  have hending : ∀ c ∈ ending, Text.isAsciiBlank c = true :=
    fun c hc => hsplit.ending_blank c (List.mem_append_left _ hc)
  have hblank : (∀ c ∈ left, Text.isBlank c = true) →
      ∀ c ∈ tabs' ++ left ++ ending, Text.isBlank c = true := by
    intro hleft c hc
    rcases List.mem_append.mp hc with hc | hc
    · rcases List.mem_append.mp hc with hc | hc
      · exact isBlank_of_isTab (htabs' c hc)
      · exact hleft c hc
    · exact isBlank_of_isAsciiBlank (hending c hc)
  cases hjoins with
  | behind hleft =>
      obtain ⟨c, hc, hother⟩ := hleft
      exact ⟨tabs', rfl, Or.inl ⟨⟨c, by simp [hc], hother⟩, htabs'⟩⟩
  | alone hleft _ =>
      refine ⟨tabs' ++ left ++ ending ++ below.take 1, by simp, Or.inr ⟨hblank hleft, ?_⟩⟩
      exact ⟨below.take 1, fun c hc => hsplit.ending_blank c (List.mem_append_right _ hc),
        Or.inl rfl⟩
  | before hleft _ _ =>
      refine ⟨tabs' ++ left, by simp, Or.inr ⟨hblank hleft, ?_⟩⟩
      exact ⟨ending, hending, Or.inr rfl⟩

/-- The text behind begins on a line of its own, or with the ending of a line, or with
a line that is not blank. -/
theorem rest_line (h : ClosesGap front back kept lead trail rest) {line below : List Char}
    (hline : FirstLine rest line below) :
    (∀ c, kept.getLast? = some c → c = '\n') ∨ (∀ c ∈ line, Text.isAsciiBlank c = true) ∨
      ∃ c ∈ line, Text.isBlank c = false := by
  obtain ⟨dropped, left, ending, below', hsplit, hjoins⟩ := h
  obtain ⟨-, hnewline, hbelow⟩ := hsplit.firstLine
  cases hjoins with
  | behind hleft =>
      have hfirst : FirstLine (left ++ ending ++ below') (left ++ ending) below' :=
        ⟨rfl, fun hc => hnewline
          (by rw [List.append_assoc]; exact List.mem_append_right _ hc),
          hbelow⟩
      obtain ⟨rfl, -⟩ := hline.unique hfirst
      obtain ⟨c, hc, hother⟩ := hleft
      exact Or.inr (Or.inr ⟨c, List.mem_append_left _ hc, hother⟩)
  | alone _ _ =>
      refine Or.inl fun c hc => ?_
      simpa using Text.getLast?_dropEndWhile_eq_false hc
  | before _ _ _ =>
      have hfirst : FirstLine (ending ++ below') ending below' :=
        ⟨rfl, fun hc => hnewline (List.mem_append_right _ hc), hbelow⟩
      obtain ⟨rfl, -⟩ := hline.unique hfirst
      exact Or.inr (Or.inl fun c hc => hsplit.ending_blank c (List.mem_append_left _ hc))

end ClosesGap

end StylePrune.Literal
