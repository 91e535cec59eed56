import Mathlib.Data.List.Basic
import Mathlib.Data.List.Induction
import StylePrune.Proofs.Literal.Gap

/-!
# Closing two gaps

Two entries are cut out of `front ++ x ++ middle ++ y ++ back`, one after the other.  With
`x` gone first, the text in front of `y` is no longer `middle` but what `closeGap` makes
of `front` and `middle`; with `y` gone first, the text behind `x` is what it makes of
`middle` and `back`.  Both ways lead to one text (`closeGap_closeGap`), although each way
may decide anew which line goes as a whole.
-/

namespace StylePrune.Text

theorem lastLine_append {line : List Char} (h : '\n' ∉ line) (front : List Char) :
    lastLine (front ++ line) = lastLine front ++ line := by
  have hline : ∀ c ∈ line.reverse, (c != '\n') = true := by
    intro c hc
    simpa using fun heq : c = '\n' => h (heq ▸ List.mem_reverse.mp hc)
  rw [lastLine, List.reverse_append, List.takeWhile_append_of_pos hline,
    List.reverse_append, List.reverse_reverse, lastLine]

theorem lastLine_of_notMem {text : List Char} (h : '\n' ∉ text) : lastLine text = text := by
  simpa [lastLine] using lastLine_append h []

/-- The last line behind a line feed. -/
theorem lastLine_append_of_mem {back : List Char} (h : '\n' ∈ back) (front : List Char) :
    lastLine (front ++ back) = lastLine back ∧
      upToLastLine (front ++ back) = front ++ upToLastLine back := by
  have hupTo : upToLastLine (front ++ back) = front ++ upToLastLine back :=
    dropEndWhile_append_of_exists ⟨'\n', h, by decide⟩ front
  refine ⟨?_, hupTo⟩
  have hwhole := upToLastLine_append_lastLine (front ++ back)
  rw [hupTo, List.append_assoc] at hwhole
  exact List.append_cancel_left
    ((List.append_cancel_left hwhole).trans (upToLastLine_append_lastLine back).symm)

/-- A text that has a line feed has one in front of its last line. -/
theorem exists_upToLastLine_eq {text : List Char} (h : '\n' ∈ text) :
    ∃ upper, upToLastLine text = upper ++ ['\n'] := by
  cases hlast : (upToLastLine text).getLast? with
  | none =>
      have hnil : dropEndWhile (· != '\n') text = [] := List.getLast?_eq_none_iff.mp hlast
      exact absurd (dropEndWhile_eq_nil_iff.mp hnil _ h) (by decide)
  | some c =>
      obtain ⟨upper, hupper⟩ := List.getLast?_eq_some_iff.mp hlast
      obtain rfl : c = '\n' := by
        simpa using getLast?_dropEndWhile_eq_false (p := (· != '\n')) hlast
      exact ⟨upper, hupper⟩

theorem dropEndWhile_append_cons {p : Char → Bool} {c : Char} (h : p c = false)
    (front back : List Char) :
    dropEndWhile p (front ++ c :: back) = front ++ c :: dropEndWhile p back := by
  have hlast : dropEndWhile p (front ++ [c] ++ back) =
      front ++ [c] ++ dropEndWhile p back :=
    dropEndWhile_append_of_last h back
  simpa using hlast

theorem newline_notMem_of_isTab {cs : List Char} (h : ∀ c ∈ cs, isTab c = true) :
    '\n' ∉ cs :=
  fun hmem => absurd (h _ hmem) (by decide)

end StylePrune.Text

namespace StylePrune.Literal

theorem trim_ne_nil_iff {cs : List Char} :
    Text.trim cs ≠ [] ↔ ∃ c ∈ cs, Text.isBlank c = false := by
  rw [ne_eq, Text.trim_eq_nil_iff]
  simp

theorem isTab_eq_false_of_isBlank {c : Char} (h : Text.isBlank c = false) :
    Text.isTab c = false := by
  by_contra htab
  rw [isBlank_of_isTab (by simpa using htab)] at h
  cases h

/-! ## The three ways to join -/

theorem joinLines_of_exists {line : List Char} (h : ∃ c ∈ line, Text.isBlank c = false)
    (front ending below : List Char) :
    joinLines front line ending below = front ++ line ++ ending ++ below :=
  if_pos (trim_ne_nil_iff.mpr h)

/-- A line that is left blank counts as empty. -/
theorem joinLines_of_blank {line : List Char} (h : ∀ c ∈ line, Text.isBlank c = true)
    (front ending below : List Char) :
    joinLines front line ending below =
      if Text.trim (Text.lastLine front) = [] then Text.upToLastLine front ++ below.drop 1
      else Text.dropEndWhile Text.isTab front ++ ending ++ below :=
  if_neg fun hother => hother (Text.trim_eq_nil_iff.mpr h)

/-- Text in front on the same line stays there. -/
theorem joinLines_of_lastLine {line front : List Char}
    (h : ∀ c ∈ line, Text.isBlank c = true)
    (hfront : ∃ c ∈ Text.lastLine front, Text.isBlank c = false)
    (ending below : List Char) :
    joinLines front line ending below =
      Text.dropEndWhile Text.isTab front ++ ending ++ below := by
  rw [joinLines_of_blank h, if_neg (trim_ne_nil_iff.mpr hfront)]

theorem blank_cases (line : List Char) :
    (∃ c ∈ line, Text.isBlank c = false) ∨ ∀ c ∈ line, Text.isBlank c = true := by
  by_cases h : ∀ c ∈ line, Text.isBlank c = true
  · exact Or.inr h
  · exact Or.inl (by simpa using h)

/-- What stands in front of other text than white space is left alone. -/
theorem joinLines_append {middle : List Char} (h : ∃ c ∈ middle, Text.isBlank c = false)
    (front line ending below : List Char) :
    joinLines (front ++ middle) line ending below =
      front ++ joinLines middle line ending below := by
  have htabs : Text.dropEndWhile Text.isTab (front ++ middle) =
      front ++ Text.dropEndWhile Text.isTab middle := by
    obtain ⟨c, hc, hblank⟩ := h
    exact Text.dropEndWhile_append_of_exists ⟨c, hc, isTab_eq_false_of_isBlank hblank⟩ front
  rcases blank_cases line with hother | hblank
  · rw [joinLines_of_exists hother, joinLines_of_exists hother]
    simp
  · by_cases hnewline : '\n' ∈ middle
    · obtain ⟨hlast, hupTo⟩ := Text.lastLine_append_of_mem hnewline front
      rw [joinLines_of_blank hblank, joinLines_of_blank hblank, hlast, hupTo, htabs]
      split <;> simp
    · -- on one line with other text, neither side takes the line along
      obtain ⟨c, hc, hother⟩ := h
      have hlast : c ∈ Text.lastLine middle := by rwa [Text.lastLine_of_notMem hnewline]
      have hlast' : c ∈ Text.lastLine (front ++ middle) := by
        rw [Text.lastLine_append hnewline]
        exact List.mem_append_right _ hc
      rw [joinLines_of_lastLine hblank ⟨c, hlast, hother⟩,
        joinLines_of_lastLine hblank ⟨c, hlast', hother⟩, htabs]
      simp

theorem closeGap_append {middle : List Char} (h : ∃ c ∈ middle, Text.isBlank c = false)
    (front back : List Char) :
    closeGap (front ++ middle) back = front ++ closeGap middle back := by
  obtain ⟨dropped, line, ending, below, hsplit⟩ := exists_splitsLine back
  rw [hsplit.closeGap_eq, hsplit.closeGap_eq, joinLines_append h]

/-- What stands behind the first line is left alone. -/
theorem closeGap_append_of_newline {middle : List Char} (h : '\n' ∈ middle)
    (front back : List Char) :
    closeGap front (middle ++ back) = closeGap front middle ++ back := by
  obtain ⟨dropped, line, ending, below, hsplit⟩ := exists_splitsLine middle
  obtain ⟨hmiddle, hnewline, hbelow⟩ := hsplit.firstLine
  rcases hbelow with rfl | ⟨rest, rfl⟩
  · rw [hmiddle, List.append_nil] at h
    exact absurd h hnewline
  · have hsplit' : SplitsLine (middle ++ back) dropped line ending
        ('\n' :: (rest ++ back)) :=
      { hsplit with firstLine := ⟨by rw [hmiddle]; simp, hnewline, Or.inr ⟨_, rfl⟩⟩ }
    rw [hsplit.closeGap_eq, hsplit'.closeGap_eq]
    rcases blank_cases line with hother | hblank
    · rw [joinLines_of_exists hother, joinLines_of_exists hother]
      simp
    · rw [joinLines_of_blank hblank, joinLines_of_blank hblank]
      split <;> simp

/-! ## Gaps on several lines -/

theorem lastLine_newline_append {line : List Char} (h : '\n' ∉ line) (front : List Char) :
    Text.lastLine (front ++ ['\n'] ++ line) = line ∧
      Text.upToLastLine (front ++ ['\n'] ++ line) = front ++ ['\n'] := by
  have hlast : Text.lastLine (front ++ ['\n'] ++ line) = line := by
    rw [Text.lastLine_append h, (Text.lastLine_append_of_mem (by simp) front).1]
    rfl
  refine ⟨hlast, ?_⟩
  have hwhole := Text.upToLastLine_append_lastLine (front ++ ['\n'] ++ line)
  rw [hlast] at hwhole
  exact List.append_cancel_right hwhole

/-- A line ending in front of which a gap is closed stays a line ending. -/
theorem getLast?_closeGap {front : List Char} (h : ∃ c ∈ front, Text.isBlank c = false)
    (upper : List Char) : (closeGap front (upper ++ ['\n'])).getLast? = some '\n' := by
  obtain ⟨dropped, line, ending, below, hsplit⟩ := exists_splitsLine (upper ++ ['\n'])
  obtain ⟨htext, hnewline, hbelow⟩ := hsplit.firstLine
  rcases hbelow with rfl | ⟨rest, rfl⟩
  · have hmem : '\n' ∈ upper ++ ['\n'] := by simp
    rw [htext, List.append_nil] at hmem
    exact absurd hmem hnewline
  · have hlast : ('\n' :: rest).getLast? = some '\n' := by
      have hwhole := congrArg List.getLast? htext
      rw [List.getLast?_concat, List.getLast?_append_of_ne_nil _ (by simp)] at hwhole
      exact hwhole.symm
    rw [hsplit.closeGap_eq]
    rcases blank_cases line with hother | hblank
    · rw [joinLines_of_exists hother, List.getLast?_append_of_ne_nil _ (by simp), hlast]
    · rw [joinLines_of_blank hblank]
      split
      · rename_i hfront
        cases rest with
        | nil =>
            -- the line of the entry goes, and the line above it has an ending
            have hmem : '\n' ∈ front := by
              by_contra hnone
              rw [Text.lastLine_of_notMem hnone] at hfront
              exact trim_ne_nil_iff.mpr h hfront
            obtain ⟨above, habove⟩ := Text.exists_upToLastLine_eq hmem
            simp [habove]
        | cons c rest =>
            rw [List.getLast?_cons_cons] at hlast
            rw [List.drop_one, List.tail_cons, List.getLast?_append_of_ne_nil _ (by simp),
              hlast]
      · rw [List.getLast?_append_of_ne_nil _ (by simp), hlast]

theorem closeGap_closeGap_of_newline {front middle : List Char}
    (hfront : ∃ c ∈ front, Text.isBlank c = false) (h : '\n' ∈ middle) (back : List Char) :
    closeGap (closeGap front middle) back = closeGap front (closeGap middle back) := by
  obtain ⟨upper, hupper⟩ := Text.exists_upToLastLine_eq h
  have hnewline := newline_not_mem_lastLine middle
  have hmiddle : middle = upper ++ ['\n'] ++ Text.lastLine middle := by
    rw [← hupper, Text.upToLastLine_append_lastLine]
  generalize Text.lastLine middle = last at hmiddle hnewline
  have hmem : '\n' ∈ upper ++ ['\n'] := by simp
  obtain ⟨above, habove⟩ := List.getLast?_eq_some_iff.mp (getLast?_closeGap hfront upper)
  obtain ⟨dropped, line, ending, below, hsplit⟩ := exists_splitsLine back
  rw [hmiddle, closeGap_append_of_newline hmem, hsplit.closeGap_eq, hsplit.closeGap_eq]
  rcases blank_cases last with hother | hlast
  · rw [joinLines_append hother, joinLines_append hother, closeGap_append_of_newline hmem]
  · rcases blank_cases line with hother | hblank
    · rw [joinLines_of_exists hother, joinLines_of_exists hother]
      have hassoc : upper ++ ['\n'] ++ last ++ line ++ ending ++ below =
          upper ++ ['\n'] ++ (last ++ line ++ ending ++ below) := by simp
      rw [hassoc, closeGap_append_of_newline hmem]
      simp
    · obtain ⟨hlast₁, hupTo₁⟩ := lastLine_newline_append hnewline upper
      obtain ⟨hlast₂, hupTo₂⟩ := lastLine_newline_append hnewline above
      rw [joinLines_of_blank hblank, joinLines_of_blank hblank, habove, hlast₁, hupTo₁,
        hlast₂, hupTo₂, if_pos (Text.trim_eq_nil_iff.mpr hlast),
        if_pos (Text.trim_eq_nil_iff.mpr hlast), closeGap_append_of_newline hmem, habove]

/-! ## Gaps on one line -/

theorem splitsLine_comma {tabs tabs' line ending below : List Char}
    (htabs : ∀ c ∈ tabs, Text.isTab c = true) (htabs' : ∀ c ∈ tabs', Text.isTab c = true)
    (hline : '\n' ∉ line) (hhead : ∀ c, line.head? = some c → Text.isTab c = false)
    (hending : ending = ['\r'] ∨ ending = [] ∧ line.getLast? ≠ some '\r')
    (hbelow : below = [] ∨ ∃ rest, below = '\n' :: rest) :
    SplitsLine (tabs ++ ',' :: (tabs' ++ (line ++ ending ++ below)))
      (tabs ++ ',' :: tabs') line
      ending below := by
  have hpadding : IsPadding (tabs ++ ',' :: tabs') :=
    Or.inr ⟨tabs, tabs', rfl, htabs, htabs'⟩
  refine ⟨⟨by simp, ?_, hbelow⟩, hpadding, ?_, ?_⟩
  · have hnoEnding : '\n' ∉ ending := by
      rcases hending with rfl | ⟨rfl, -⟩ <;> simp
    simp [Text.newline_notMem_of_isTab htabs, Text.newline_notMem_of_isTab htabs', hline,
      hnoEnding]
  · intro c hc
    exact ⟨hhead c hc, fun hcomma => absurd hcomma (by simp)⟩
  · refine hending.imp id fun hlast => ⟨hlast.1, ?_⟩
    cases line using List.reverseRecOn with
    | nil =>
        rw [List.append_nil]
        exact hpadding.getLast?_ne
    | append_singleton line c =>
        rw [List.getLast?_concat] at hlast
        rw [← List.append_assoc, List.getLast?_concat]
        exact hlast.2

section OneLine

variable {tabs tabs' kept : List Char} (htabs : ∀ c ∈ tabs, Text.isTab c = true)
  (htabs' : ∀ c ∈ tabs', Text.isTab c = true) (hnewline : '\n' ∉ kept)
  (hhead : ∀ c, kept.head? = some c → Text.isTab c = false)

include htabs htabs' hnewline hhead

/-- Text behind a comma moves up to the text in front of the gap. -/
theorem closeGap_comma {line ending below : List Char}
    (hother : ∃ c ∈ line, Text.isBlank c = false) (hline : '\n' ∉ line)
    (hlineHead : ∀ c, line.head? = some c → Text.isTab c = false)
    (hending : ending = ['\r'] ∨ ending = [] ∧ line.getLast? ≠ some '\r')
    (hbelow : below = [] ∨ ∃ rest, below = '\n' :: rest) (front : List Char) :
    closeGap front (tabs ++ ',' :: (tabs' ++ kept) ++ (line ++ ending ++ below)) =
      front ++ kept ++ (line ++ ending ++ below) := by
  obtain ⟨c, hc, hblank⟩ := hother
  have hwholeHead : ∀ d, (kept ++ line).head? = some d → Text.isTab d = false := by
    intro d hd
    cases kept with
    | nil => exact hlineHead d hd
    | cons e kept => exact hhead d hd
  have hwholeEnding : ending = ['\r'] ∨ ending = [] ∧
      (kept ++ line).getLast? ≠ some '\r' := by
    rwa [List.getLast?_append_of_ne_nil _ (List.ne_nil_of_mem hc)]
  have hsplit := splitsLine_comma htabs htabs'
    (by simp [hnewline, hline]) hwholeHead hwholeEnding
    hbelow
  have hassoc : tabs ++ ',' :: (tabs' ++ kept) ++ (line ++ ending ++ below) =
      tabs ++ ',' :: (tabs' ++ (kept ++ line ++ ending ++ below)) := by simp
  rw [hassoc, hsplit.closeGap_eq,
    joinLines_of_exists ⟨c, List.mem_append_right _ hc, hblank⟩]
  simp

omit hhead in
/-- With nothing but white space behind on its line, a gap of a comma leaves its line
ending and loses the spaces in front of that. -/
theorem joinLines_comma_of_blank {line : List Char}
    (hblank : ∀ c ∈ line, Text.isBlank c = true) (ending below : List Char) :
    joinLines (tabs ++ ',' :: (tabs' ++ kept)) line ending below =
      tabs ++ ',' ::
        (Text.dropEndWhile Text.isTab (tabs' ++ kept) ++ (ending ++ below)) := by
  have hnone : '\n' ∉ tabs ++ ',' :: (tabs' ++ kept) := by
    simp [Text.newline_notMem_of_isTab htabs, Text.newline_notMem_of_isTab htabs', hnewline]
  have hlast : ',' ∈ Text.lastLine (tabs ++ ',' :: (tabs' ++ kept)) := by
    rw [Text.lastLine_of_notMem hnone]
    simp
  rw [joinLines_of_lastLine hblank ⟨',', hlast, by decide⟩,
    Text.dropEndWhile_append_cons (by decide)]
  simp

/-- With nothing but white space behind on its line, the second gap leaves its line
ending. -/
theorem closeGap_comma_of_blank
    (hpadded : ∀ c ∈ kept, Text.isBlank c = true → Text.isTab c = true)
    {line ending below : List Char} (hblank : ∀ c ∈ line, Text.isBlank c = true)
    (hending : ending = ['\r'] ∨ ending = [])
    (hbelow : below = [] ∨ ∃ rest, below = '\n' :: rest) (front : List Char) :
    joinLines (front ++ kept) line ending below =
      closeGap front (joinLines (tabs ++ ',' :: (tabs' ++ kept)) line ending below) := by
  rw [joinLines_comma_of_blank htabs htabs' hnewline hblank]
  cases kept with
  | nil =>
      have hnil : Text.dropEndWhile Text.isTab (tabs' ++ []) = [] :=
        Text.dropEndWhile_eq_nil_iff.mpr (by simpa using htabs')
      have hnone : ∀ c ∈ ([] : List Char), Text.isTab c = true := by simp
      have hempty : ∀ c ∈ ([] : List Char), Text.isBlank c = true := by simp
      have hsplit := splitsLine_comma htabs hnone List.not_mem_nil (by simp)
        (hending.imp id fun h => ⟨h, by simp⟩) hbelow
      rw [List.append_nil, hnil, joinLines_of_blank hblank, ← joinLines_of_blank hempty]
      exact (hsplit.closeGap_eq front).symm
  | cons c kept =>
      have htab : Text.isTab c = false := hhead c rfl
      have hother : Text.isBlank c = false := by
        by_contra hc
        rw [hpadded c (by simp) (by simpa using hc)] at htab
        cases htab
      have hdrop : Text.dropEndWhile Text.isTab (c :: kept) =
          c :: Text.dropEndWhile Text.isTab kept :=
            Text.dropEndWhile_append_cons htab [] kept
      obtain ⟨run, hrun, -⟩ := Text.exists_dropEndWhile_append Text.isTab kept
      have hsub : ∀ d ∈ c :: Text.dropEndWhile Text.isTab kept, d ∈ c :: kept := by
        intro d hd
        rw [hrun, ← List.cons_append]
        exact List.mem_append_left _ hd
      have hreturn : (c :: Text.dropEndWhile Text.isTab kept).getLast? ≠ some '\r' := by
        intro hlast
        have htab := hpadded _ (hsub _ (List.mem_of_getLast? hlast)) (by decide)
        exact absurd htab (by decide)
      have hsplit := splitsLine_comma htabs htabs' (fun h => hnewline (hsub _ h))
        (by simpa using htab) (hending.imp id fun h => ⟨h, hreturn⟩) hbelow
      have hlast : c ∈ Text.lastLine (c :: kept) := by
        rw [Text.lastLine_of_notMem hnewline]
        simp
      rw [joinLines_append ⟨c, by simp, hother⟩,
        joinLines_of_lastLine hblank ⟨c, hlast, hother⟩, Text.dropEndWhile_append_cons htab,
        List.append_assoc tabs']
      rw [List.append_assoc] at hsplit
      rw [hsplit.closeGap_eq, joinLines_of_exists ⟨c, by simp, hother⟩, hdrop]
      simp

end OneLine

/-- The text between two entries: white space, a comma, and what else there is.  On one line
it has no white space but spaces and tabs. -/
structure Parts (middle : List Char) : Prop where
  comma : ∃ blanks more,
    middle = blanks ++ ',' :: more ∧ ∀ c ∈ blanks, Text.isBlank c = true
  padded : '\n' ∉ middle → ∀ c ∈ middle, Text.isBlank c = true → Text.isTab c = true

theorem exists_firstLine_cons {c : Char} (h : Text.isBlank c = false) (tail : List Char) :
    ∃ line ending below, c :: tail = c :: line ++ ending ++ below ∧ '\n' ∉ c :: line ∧
      (ending = ['\r'] ∨ ending = [] ∧ (c :: line).getLast? ≠ some '\r') ∧
      (below = [] ∨ ∃ rest, below = '\n' :: rest) := by
  obtain ⟨htext, hnewline, hbelow⟩ := firstLine_restOfLine (c :: tail)
  obtain ⟨line, ending, -, hline, hending⟩ := splitReturn_cases (restOfLine (c :: tail)).1
  rw [hline] at htext hnewline
  cases line with
  | nil =>
      exfalso
      rcases hending with rfl | ⟨rfl, -⟩
      · obtain rfl : c = '\r' := by simpa using congrArg List.head? htext
        exact absurd h (by decide)
      · rcases hbelow with hnil | ⟨rest, hrest⟩
        · simp [hnil] at htext
        · obtain rfl : c = '\n' := by simpa [hrest] using congrArg List.head? htext
          exact absurd h (by decide)
  | cons d line =>
      obtain rfl : c = d := by simpa using congrArg List.head? htext
      exact ⟨line, ending, _, htext,
        fun hmem => hnewline (List.mem_append_left _ hmem), hending,
        hbelow⟩

/-- Of two gaps it does not matter which is closed first.  `front` and `middle` are
joined in front of a second entry, which begins with `c`. -/
theorem closeGap_closeGap {front middle : List Char}
    (hfront : ∃ c ∈ front, Text.isBlank c = false) (h : Parts middle) {c : Char}
    (hc : Text.isBlank c = false) (tail back : List Char) :
    ∃ joint, closeGap front (middle ++ c :: tail) = joint ++ c :: tail ∧
      closeGap joint back = closeGap front (closeGap middle back) := by
  by_cases hnewline : '\n' ∈ middle
  · exact ⟨closeGap front middle, closeGap_append_of_newline hnewline front _,
      closeGap_closeGap_of_newline hfront hnewline back⟩
  · obtain ⟨blanks, more, rfl, hblanks⟩ := h.comma
    have hpadded := h.padded hnewline
    have htabs : ∀ c ∈ blanks, Text.isTab c = true :=
      fun c hc => hpadded c (by simp [hc]) (hblanks c hc)
    have htabs' : ∀ c ∈ more.takeWhile Text.isTab, Text.isTab c = true :=
      fun c hc => List.mem_takeWhile_imp hc
    have hmore := List.takeWhile_append_dropWhile (p := Text.isTab) (l := more)
    have hsub : ∀ c ∈ more.dropWhile Text.isTab, c ∈ blanks ++ ',' :: more :=
      fun c hc => by simp [(List.dropWhile_sublist _).subset hc]
    have hkept : '\n' ∉ more.dropWhile Text.isTab := fun hmem => hnewline (hsub _ hmem)
    have hhead : ∀ c, (more.dropWhile Text.isTab).head? = some c → Text.isTab c = false :=
      fun c hc => Text.head?_dropWhile_eq_false hc
    refine ⟨front ++ more.dropWhile Text.isTab, ?_, ?_⟩
    · obtain ⟨line, ending, below, htail, hline, hending, hbelow⟩ :=
        exists_firstLine_cons hc tail
      have hjoin := closeGap_comma htabs htabs' hkept hhead
        ⟨c, List.mem_cons_self, hc⟩ hline
        (by simpa using isTab_eq_false_of_isBlank hc) hending hbelow front
      rwa [hmore, ← htail] at hjoin
    · obtain ⟨dropped, line, ending, below, hsplit⟩ := exists_splitsLine back
      rw [hsplit.closeGap_eq, hsplit.closeGap_eq]
      rcases blank_cases line with hother | hblank
      · have hne : line ≠ [] := List.ne_nil_of_mem hother.choose_spec.1
        have hending := hsplit.ending
        rw [List.getLast?_append_of_ne_nil _ hne] at hending
        have hjoin := closeGap_comma htabs htabs' hkept hhead hother
          (fun hmem => hsplit.firstLine.newline (by simp [hmem]))
            (fun c hc => (hsplit.head c hc).1)
          hending hsplit.firstLine.below front
        rw [joinLines_of_exists hother, joinLines_of_exists hother]
        rw [hmore] at hjoin
        simpa using hjoin.symm
      · have hjoin := closeGap_comma_of_blank htabs htabs' hkept hhead
          (fun c hc => hpadded c (hsub c hc)) hblank (hsplit.ending.imp id And.left)
          hsplit.firstLine.below front
        rwa [hmore] at hjoin

end StylePrune.Literal
