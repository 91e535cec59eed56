import StylePrune.Proofs.Literal.Gap
import StylePrune.Proofs.Literal.Octets.Reading
import StylePrune.Proofs.Literal.Offsets

/-!
# What is done with a literal, through offsets

The two users of a literal slice the text at the offsets that the reader returns, and at
offsets that they find from there on.  Since the offsets are sound, no slice fails, and both
come to what the readings of characters come to.
-/

namespace StylePrune.Literal.Octets

open Text

/-- The table of a text is extracted without a fault. -/
theorem extract_eq (file : Path) (marker text : List Char) :
    extract file marker text = .ok (StyleTable.extract file marker text) := by
  rw [extract, find?_eq, ok_bind, StyleTable.extract]
  cases hfind : Literal.find? marker text with
  | none => rfl
  | some literal =>
      have hsound := isSound_of_find? hfind
      obtain ⟨front, rest, hfront, hstart⟩ := isBoundary_iff.mp hsound.start_boundary
      obtain ⟨body, back, hback, hstop⟩ := isBoundary_iff.mp hsound.stop_boundary
      have hbefore : before literal.start text = front := by
        rw [hstart, hfront, before_size]
      have hafter : after literal.stop text = back := by rw [hstop, hback, after_size]
      have hsliceFront : slice text 0 literal.start = .ok front := by
        rw [hstart, slice_front hfront]
      have hsliceBack : slice text literal.stop (size text) = .ok back := by
        rw [hstop, slice_back hback]
      simp only [hbefore, hafter, hsliceFront, hsliceBack, ok_bind, pure_eq_ok]
      cases literal.terminated <;> rfl

/-! ## The line behind an entry -/

theorem returnStart_eq {text front line ending back : List Char}
    (htext : text = front ++ line ++ ending ++ back)
    (hending : ending = ['\r'] ∨ ending = [] ∧ line.getLast? ≠ some '\r') :
    returnStart (octets text) (size front) (size (front ++ line ++ ending)) =
      .ok (size (front ++ line)) := by
  rcases hending with rfl | ⟨rfl, hlast⟩
  · have hhere : text = front ++ line ++ '\r' :: back := by simpa using htext
    have hreturn := octetAt_ascii hhere (by decide)
    have hlt : size front < size (front ++ line ++ ['\r']) := by
      rw [size_concat_ascii _ (by decide), size_append]
      omega
    rw [returnStart, if_pos hlt, size_concat_ascii _ (by decide), Nat.add_sub_cancel,
      hreturn, ok_bind, if_pos rfl]
    rfl
  · rw [List.append_nil] at htext ⊢
    rcases List.eq_nil_or_concat' line with rfl | ⟨cs, c, rfl⟩
    · rw [returnStart, if_neg (by simp)]
      rfl
    · have hhere : text = front ++ cs ++ c :: back := by simpa using htext
      have hne : c ≠ '\r' := by simpa using hlast
      obtain ⟨d, hd, hdc⟩ := exists_octetAt_last hhere
      rw [List.append_assoc] at hd
      rw [returnStart, if_pos (lt_size_append (by simp)), hd, ok_bind,
        if_neg (hdc.ne (by decide) hne)]
      rfl

theorem separatorEnd_eq {back dropped line ending below : List Char}
    (h : SplitsLine back dropped line ending below) {text front behind : List Char}
    (htext : text = front ++ dropped ++ line ++ behind) :
    separatorEnd (octets text) (size (front ++ dropped ++ line)) (size front) =
      .ok (size (front ++ dropped)) := by
  have hstop : ∀ c, line.head? = some c → isTab c = false := fun c hc => (h.head c hc).1
  have hskip := @skipWhile_eq isTab (fun c => isTab_of_isWide) text
  rcases h.padding with htabs | ⟨tabs, tabs', rfl, htabs, htabs'⟩
  · have hrun : text = front ++ (dropped ++ line) ++ behind := by simpa using htext
    have hfirst := hskip hrun
    rw [takeWhile_append_eq htabs hstop, ← List.append_assoc] at hfirst
    rw [separatorEnd, hfirst, ok_bind]
    cases line with
    | nil => rw [if_neg (by simp)]; rfl
    | cons c line =>
        have hhere : text = front ++ dropped ++ c :: (line ++ behind) := by
          simpa using htext
        have hne : c ≠ ',' :=
          (h.head c rfl).2 fun hmem => absurd (htabs _ hmem) (by decide)
        obtain ⟨d, hd, hdc⟩ := exists_octetAt_head hhere
        rw [if_pos (lt_size_append (by simp)), hd, ok_bind, if_neg (hdc.ne (by decide) hne)]
        rfl
  · have hrun : text = front ++ (tabs ++ ',' :: (tabs' ++ line)) ++ behind := by
      simpa using htext
    have hcomma : text = front ++ tabs ++ ',' :: (tabs' ++ line ++ behind) := by
      simpa using htext
    have hrun' : text = front ++ tabs ++ [','] ++ (tabs' ++ line) ++ behind := by
      simpa using htext
    have hfirst := hskip hrun
    have hsecond := hskip hrun'
    rw [takeWhile_append_eq htabs (by simp [isTab])] at hfirst
    rw [takeWhile_append_eq htabs' hstop, size_concat_ascii _ (by decide)] at hsecond
    have hlimit : front ++ (tabs ++ ',' :: tabs') ++ line =
        front ++ (tabs ++ ',' :: (tabs' ++ line)) := by simp
    have hlimit' : front ++ (tabs ++ ',' :: (tabs' ++ line)) =
        front ++ tabs ++ [','] ++ (tabs' ++ line) := by simp
    have hlt : size (front ++ tabs) < size (front ++ (tabs ++ ',' :: (tabs' ++ line))) := by
      rw [← List.append_assoc]
      exact lt_size_append (by simp)
    rw [separatorEnd, hlimit, hfirst, ok_bind, if_pos hlt, octetAt_ascii hcomma (by decide),
      ok_bind, if_pos rfl, hlimit', hsecond]
    simp

/-! ## Cutting -/

/-- The line feed of a line goes with the line. -/
theorem slice_below {text front back line below : List Char} (htext : text = front ++ below)
    (h : FirstLine back line below) :
    slice text (if size front < size text then size front + 1 else size text) (size text) =
      .ok (below.drop 1) := by
  rcases h.below with rfl | ⟨rest, rfl⟩
  · have hall : text = text ++ [] := (List.append_nil text).symm
    rw [if_neg (by simp [htext])]
    exact slice_back hall
  · have hbehind : text = front ++ ['\n'] ++ rest := by simpa using htext
    have hlt : size front < size text := by
      rw [htext]
      exact lt_size_append (by simp)
    rw [if_pos hlt, ← size_concat_ascii front (c := '\n') (by decide)]
    exact slice_back hbehind

theorem strip_eq {text front entry back : List Char}
    (htext : text = front ++ entry ++ back) :
    strip text (size front) (size (front ++ entry)) = .ok (closeGap front back) := by
  obtain ⟨dropped, line, ending, below, hsplit⟩ := exists_splitsLine back
  have hback := hsplit.firstLine.text_eq
  have hlead := upToLastLine_append_lastLine front
  have hentry : text = front ++ (entry ++ back) := by simpa using htext
  have hlines : text = upToLastLine front ++ lastLine front ++ (entry ++ back) := by
    rw [hlead, hentry]
  have hdropped : text = front ++ entry ++ dropped ++ line ++ (ending ++ below) := by
    simp [htext, hback]
  have hending : text = front ++ entry ++ (dropped ++ line) ++ ending ++ below := by
    simp [htext, hback]
  have hsliceLead : slice text (size (upToLastLine front)) (size front) =
      .ok (lastLine front) := by
    have hslice := slice_eq (upToLastLine front) (lastLine front) (entry ++ back)
    rwa [← hlines, hlead] at hslice
  have hlineStop : size (front ++ entry) + size (back.takeWhile (· != '\n')) =
      size (front ++ entry ++ (dropped ++ line) ++ ending) := by
    rw [hsplit.firstLine.takeWhile_eq]
    simp [Nat.add_assoc]
  have hreturn := returnStart_eq hending hsplit.ending
  have hseparator := separatorEnd_eq hsplit hdropped
  rw [List.append_assoc (front ++ entry)] at hseparator
  have hsliceLine := slice_eq (front ++ entry ++ dropped) line (ending ++ below)
  rw [← hdropped, List.append_assoc (front ++ entry)] at hsliceLine
  -- all offsets are now sizes of front parts, and the three ways to join are left
  rw [strip, slice_front hentry, ok_bind]
  simp only [hsliceLead, slice_back htext, hlineStop, hreturn, hseparator, hsliceLine,
    ok_bind, hsplit.closeGap_eq, joinLines]
  by_cases hline : trim line ≠ []
  · have hrest : text = front ++ entry ++ dropped ++ (line ++ ending ++ below) := by
      simpa using hdropped
    rw [if_pos hline, if_pos hline, slice_back hrest]
    simp
  rw [if_neg hline, if_neg hline]
  by_cases hlast : trim (lastLine front) = []
  · have hfront : text = upToLastLine front ++ (lastLine front ++ (entry ++ back)) := by
      simpa using hlines
    rw [if_pos hlast, if_pos hlast, slice_front hfront, ok_bind,
      slice_below hending hsplit.firstLine]
    rfl
  · rw [if_neg hlast, if_neg hlast,
      slice_back (hending.trans (List.append_assoc _ ending below))]
    simp

theorem cut?_eq (marker text : List Char) (key : String) :
    cut? marker text key = .ok (Literal.cut? marker text key) := by
  rw [cut?, find?_eq, ok_bind, Literal.cut?]
  cases hfind : Literal.find? marker text with
  | none => rfl
  | some literal =>
      cases hkey : literal.key? key with
      | none => simp [hkey]
      | some span =>
          have hspan := (isSound_of_find? hfind).span span (List.mem_of_find?_eq_some hkey)
          have hle : span.start ≤ span.entryEnd :=
            (Nat.le_of_lt hspan.start_lt_stop).trans hspan.stop_le_entryEnd
          obtain ⟨front, entry, back, htext, hstart, hend⟩ :=
            exists_parts_of_isBoundary hspan.start_boundary hspan.entryEnd_boundary hle
          have hbefore : before span.start text = front := by
            rw [hstart, htext, List.append_assoc, before_size]
          have hafter : after span.entryEnd text = back := by rw [hend, htext, after_size]
          have hstrip : strip text span.start span.entryEnd =
              .ok (closeGap front back) := by
            rw [hstart, hend, strip_eq htext]
          simp [hkey, hbefore, hafter, hstrip]

/-- Whatever the marker and the text are, the literal can be read byte by byte without a
fault, its offsets are sound, and what is sliced at them can be sliced. -/
theorem offsets_sound (marker text : List Char) :
    find? marker text = .ok (Literal.find? marker text) ∧
      (∀ literal, Literal.find? marker text = some literal → literal.IsSound marker text) ∧
      (∀ file, extract file marker text = .ok (StyleTable.extract file marker text)) ∧
      ∀ key, cut? marker text key = .ok (Literal.cut? marker text key) :=
  ⟨find?_eq marker text, fun _ => isSound_of_find?, fun file => extract_eq file marker text,
    cut?_eq marker text⟩

/-- A backslash in front of a character of two bytes, in a literal that is not closed. -/
theorem offsets_sound_escape :
    let text := "x(\x7b 'é': \x7b a: '\\ü' \x7d, b: {} // →".toList
    ∃ literal, find? ['(', '{'] text = .ok (some literal) ∧
      literal.keys.map KeySpan.name = ["é", "b"] ∧ literal.IsSound ['(', '{'] text := by
  intro text
  obtain ⟨hread, hsound, -⟩ := offsets_sound ['(', '{'] text
  have hfind : Literal.find? ['(', '{'] text =
      some ⟨1, 36, [⟨"é", 4, 22, 22⟩, ⟨"b", 24, 29, 29⟩], false⟩ := by
    decide +kernel
  exact ⟨_, hread.trans (congrArg Except.ok hfind), rfl, hsound _ hfind⟩

end StylePrune.Literal.Octets
