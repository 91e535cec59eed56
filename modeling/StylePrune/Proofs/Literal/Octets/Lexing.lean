import StylePrune.Proofs.Literal.Lexing
import StylePrune.Proofs.Literal.Octets.Reader
import StylePrune.Proofs.Text.Word

/-!
# Lexemes read byte by byte

Each walk over bytes that reads a lexeme ends where the lexer of characters ends the
lexeme, and asks for no byte that is not there.  A backslash takes one byte with it and
not a character; the bytes that are left of the character are passed over one by one.
-/

namespace StylePrune.Literal.Octets

open Text

@[simp]
theorem ok_bind {α β : Type} (a : α) (f : α → Except Fault β) :
    (Except.ok a >>= f) = f a := rfl

@[simp]
theorem pure_eq_ok {α : Type} (a : α) : (pure a : Except Fault α) = .ok a := rfl

theorem octetAt_eq {bytes : List UInt8} {i : Nat} {c : Char} (h : octet? bytes i = some c) :
    octetAt bytes i = .ok c := by
  rw [octetAt, h]

/-- What is read of a character: the character itself, or a byte beyond ASCII of it. -/
def IsReadOf (d c : Char) : Prop :=
  d = c ∨ IsWide d ∧ IsWide c

theorem IsReadOf.eq_of_ascii {c d : Char} (h : IsReadOf d c) (hc : ¬IsWide c) : d = c :=
  h.resolve_right fun hwide => hc hwide.2

theorem IsReadOf.ne {c d e : Char} (h : IsReadOf d c) (he : ¬IsWide e) (hne : c ≠ e) :
    d ≠ e := by
  rcases h with rfl | ⟨hwide, -⟩
  · exact hne
  · exact ne_of_isWide hwide he

theorem IsReadOf.not_mem_class {p : Char → Bool} (hp : ∀ c, IsWide c → p c = false)
    {c d : Char} (h : IsReadOf d c) (hc : ¬p c = true) : ¬p d = true := by
  rcases h with rfl | ⟨hwide, -⟩
  · exact hc
  · simp [hp d hwide]

/-- A character is read at its first byte. -/
theorem exists_octetAt_head {text front back : List Char} {c : Char}
    (htext : text = front ++ c :: back) :
    ∃ d, octetAt (octets text) (size front) = .ok d ∧ IsReadOf d c := by
  subst htext
  by_cases hc : IsWide c
  · obtain ⟨d, hd, hwide⟩ := exists_octet?_cons_wide hc back c.utf8Size_pos
    rw [← octet?_append front] at hd
    exact ⟨d, octetAt_eq hd, Or.inr ⟨hwide, hc⟩⟩
  · exact ⟨c, octetAt_eq ((octet?_size_iff hc).mpr rfl), Or.inl rfl⟩

/-- A character is read at its last byte. -/
theorem exists_octetAt_last {text front back : List Char} {c : Char}
    (htext : text = front ++ c :: back) :
    ∃ d, octetAt (octets text) (size (front ++ [c]) - 1) = .ok d ∧ IsReadOf d c := by
  obtain ⟨k, hk⟩ := Nat.exists_eq_succ_of_ne_zero (Nat.pos_iff_ne_zero.mp c.utf8Size_pos)
  have hlast : size (front ++ [c]) - 1 = size front + k := by
    simp only [size_append, size_cons, size_nil, hk]
    omega
  by_cases hc : IsWide c
  · obtain ⟨d, hd, hwide⟩ := exists_octet?_cons_wide hc back (k := k) (by omega)
    rw [← octet?_append_add front, ← htext, ← hlast] at hd
    exact ⟨d, octetAt_eq hd, Or.inr ⟨hwide, hc⟩⟩
  · obtain rfl : k = 0 := by
      rw [utf8Size_of_ascii hc] at hk
      omega
    rw [hlast]
    exact exists_octetAt_head htext

theorem octetAt_ascii {text front back : List Char} {c : Char}
    (htext : text = front ++ c :: back) (hc : ¬IsWide c) :
    octetAt (octets text) (size front) = .ok c := by
  subst htext
  exact octetAt_eq ((octet?_size_iff hc).mpr rfl)

theorem lt_length_octets {text front back : List Char} {c : Char}
    (htext : text = front ++ c :: back) : size front < (octets text).length := by
  have := c.utf8Size_pos
  simp only [htext, length_octets, size_append, size_cons]
  omega

theorem size_concat_ascii (front : List Char) {c : Char} (hc : ¬IsWide c) :
    size (front ++ [c]) = size front + 1 := by
  simp [utf8Size_of_ascii hc]

theorem slice_eq (front run back : List Char) :
    slice (front ++ run ++ back) (size front) (size (front ++ run)) = .ok run := by
  have hstart : isBoundary (front ++ run ++ back) (size front) = true := by
    rw [List.append_assoc]
    exact isBoundary_append _ _
  rw [slice, if_pos ⟨by simp, hstart, isBoundary_append _ _⟩, size_append, between_size]

theorem slice_front {text front back : List Char} (htext : text = front ++ back) :
    slice text 0 (size front) = .ok front := by
  subst htext
  exact slice_eq [] front back

theorem slice_back {text front back : List Char} (htext : text = front ++ back) :
    slice text (size front) (size text) = .ok back := by
  subst htext
  simpa using slice_eq front back []

theorem bytesFrom_eq (front back : List Char) :
    bytesFrom (octets (front ++ back)) (size front) = .ok (octets back) := by
  rw [bytesFrom, if_pos (by simp), octets_append, List.drop_left' (length_octets front)]

/-! ## Classes of bytes -/

theorem isTab_of_isWide {c : Char} (h : IsWide c) : isTab c = false := by
  rw [Bool.eq_false_iff]
  intro htab
  simp only [isTab, Bool.or_eq_true, beq_iff_eq] at htab
  rcases htab with rfl | rfl
  all_goals exact absurd h (by decide)

theorem isAsciiBlank_of_isWide {c : Char} (h : IsWide c) : isAsciiBlank c = false := by
  rw [Bool.eq_false_iff]
  intro hblank
  simp only [isAsciiBlank, Bool.or_eq_true, beq_iff_eq] at hblank
  rcases hblank with (((rfl | rfl) | rfl) | rfl) | rfl
  all_goals exact absurd h (by decide)

/-- A walk over the bytes of one class of ASCII characters ends where the characters do. -/
theorem skipWhile_eq {p : Char → Bool} (hp : ∀ c, IsWide c → p c = false)
    {text front run back : List Char} (htext : text = front ++ run ++ back) :
    skipWhile p (octets text) (size (front ++ run)) (size front) =
      .ok (size (front ++ run.takeWhile p)) := by
  induction run generalizing front with
  | nil =>
      rw [skipWhile, if_neg (by simp)]
      simp
  | cons c run ih =>
      have hhere : text = front ++ c :: (run ++ back) := by simpa using htext
      have hnext : text = front ++ [c] ++ run ++ back := by simpa using htext
      have hlt : size front < size (front ++ c :: run) := by
        have := c.utf8Size_pos
        simp
        omega
      obtain ⟨d, hd, hdc⟩ := exists_octetAt_head hhere
      rw [skipWhile, if_pos hlt, hd, ok_bind]
      by_cases hc : p c = true
      · have hascii : ¬IsWide c := fun hwide => by simp [hp c hwide] at hc
        obtain rfl := hdc.eq_of_ascii hascii
        rw [if_pos hc, ← size_concat_ascii front hascii, List.takeWhile_cons_of_pos hc]
        simpa using ih hnext
      · rw [if_neg (hdc.not_mem_class hp hc), List.takeWhile_cons_of_neg hc]
        simp

/-- A walk that nothing limits ends where the characters of the class do. -/
theorem skipWhile_rest_eq {p : Char → Bool} (hp : ∀ c, IsWide c → p c = false)
    {text front cs : List Char} (htext : text = front ++ cs) :
    skipWhile p (octets text) (octets text).length (size front) =
      .ok (size (front ++ cs.takeWhile p)) := by
  have hall : text = front ++ cs ++ [] := by simpa using htext
  rw [length_octets]
  nth_rewrite 2 [htext]
  exact skipWhile_eq hp hall

theorem trimBack_eq {text front back : List Char} (htext : text = front ++ back) :
    trimBack (octets text) (size front) = .ok (size (dropEndWhile isAsciiBlank front)) := by
  induction front using List.reverseRecOn generalizing back with
  | nil => rfl
  | append_singleton front c ih =>
      have hhere : text = front ++ c :: back := by simpa using htext
      obtain ⟨d, hd, hdc⟩ := exists_octetAt_last hhere
      have hpos : size (front ++ [c]) = size (front ++ [c]) - 1 + 1 := by
        have := c.utf8Size_pos
        simp only [size_append, size_cons, size_nil]
        omega
      rw [dropEndWhile_concat, hpos, trimBack, hd, ok_bind]
      by_cases hblank : isAsciiBlank c = true
      · have hc : ¬IsWide c := fun hwide => by simp [isAsciiBlank_of_isWide hwide] at hblank
        obtain rfl := hdc.eq_of_ascii hc
        rw [if_pos hblank, if_pos hblank, size_concat_ascii front hc, Nat.add_sub_cancel,
          ih hhere]
      · have hstop := hdc.not_mem_class (fun c => isAsciiBlank_of_isWide) hblank
        rw [if_neg hstop, if_neg hblank, ← hpos]
        rfl

/-! ## Comments -/

/-- What is passed over is added to the place of what is found behind it. -/
theorem getD_map_add (o : Option Nat) (n m : Nat) :
    (o.map (· + n)).getD (n + m) = n + o.getD m := by
  cases o with
  | none => rfl
  | some k => exact Nat.add_comm k n

theorem findIdx?_octets (cs : List Char) :
    ((octets cs).findIdx? (Char.ofUInt8 · = '\n')).getD (size cs) =
      size (cs.takeWhile (· != '\n')) := by
  induction cs with
  | nil => rfl
  | cons c cs ih =>
      have hskip : c ≠ '\n' →
          (String.utf8EncodeChar c).findIdx? (Char.ofUInt8 · = '\n') = none →
          ((octets (c :: cs)).findIdx? (Char.ofUInt8 · = '\n')).getD (size (c :: cs)) =
            size ((c :: cs).takeWhile (· != '\n')) := by
        intro hc hnone
        rw [octets_cons, List.findIdx?_append, hnone, Option.none_or, size_cons,
          String.length_utf8EncodeChar, getD_map_add, ih,
          List.takeWhile_cons_of_pos (by simpa using hc), size_cons]
      by_cases hc : IsWide c
      · refine hskip (ne_of_isWide hc (by decide))
          (List.findIdx?_eq_none_iff.mpr fun b hb => ?_)
        exact decide_eq_false (ne_of_isWide (isWide_ofUInt8_of_mem hc hb) (by decide))
      · obtain ⟨b, hb, hchar⟩ := exists_octet_of_ascii hc
        by_cases hline : c = '\n'
        · rw [octets_cons, hb, List.takeWhile_cons_of_neg (by simpa using hline)]
          simp [List.findIdx?_cons, hchar, hline]
        · exact hskip hline (by simp [hb, List.findIdx?_cons, hchar, hline])

theorem lineCommentEnd_eq {text front cs : List Char} (htext : text = front ++ cs) :
    lineCommentEnd (octets text) (size front) =
      .ok (size front + size (cs.takeWhile (· != '\n'))) := by
  subst htext
  rw [lineCommentEnd, bytesFrom_eq, ok_bind, ← findIdx?_octets]
  split
  · rename_i n hn
    rw [hn]
    rfl
  · rename_i hn
    rw [hn]
    simp

theorem commentEndIdx?_append_of_wide {bs : List UInt8}
    (h : ∀ b ∈ bs, IsWide (Char.ofUInt8 b)) (bytes : List UInt8) :
    commentEndIdx? (bs ++ bytes) = (commentEndIdx? bytes).map (· + bs.length) := by
  induction bs with
  | nil => simp
  | cons b bs ih =>
      obtain ⟨hb, hbs⟩ := List.forall_mem_cons.mp h
      have hstar : ¬(Char.ofUInt8 b = '*' ∧ octet? (bs ++ bytes) 0 = some '/') :=
        fun hand => ne_of_isWide hb (by decide) hand.1
      rw [List.cons_append, commentEndIdx?, if_neg hstar, ih hbs, Option.map_map]
      rfl

theorem commentEndIdx?_octets (cs : List Char) :
    ((commentEndIdx? (octets cs)).map (· + 2)).getD (size cs) =
      size (blockCommentRest cs).1 := by
  induction cs with
  | nil => rfl
  | cons c cs ih =>
      have hskip : ¬(c = '*' ∧ cs.head? = some '/') →
          commentEndIdx? (octets (c :: cs)) =
            (commentEndIdx? (octets cs)).map (· + c.utf8Size) →
          ((commentEndIdx? (octets (c :: cs))).map (· + 2)).getD (size (c :: cs)) =
            size (blockCommentRest (c :: cs)).1 := by
        intro hc hrest
        have hcomm : ((commentEndIdx? (octets cs)).map (· + c.utf8Size)).map (· + 2) =
            ((commentEndIdx? (octets cs)).map (· + 2)).map (· + c.utf8Size) := by
          rw [Option.map_map, Option.map_map]
          exact congrArg (Option.map · _) (funext fun n => Nat.add_right_comm n _ 2)
        rw [hrest, hcomm, size_cons, getD_map_add, ih, blockCommentRest_cons hc, size_cons]
      by_cases hc : IsWide c
      · refine hskip (fun hand => ne_of_isWide hc (by decide) hand.1) ?_
        rw [octets_cons,
          commentEndIdx?_append_of_wide fun b hb => isWide_ofUInt8_of_mem hc hb,
          String.length_utf8EncodeChar]
      · obtain ⟨b, hb, hchar⟩ := exists_octet_of_ascii hc
        have hnext : octet? (octets cs) 0 = some '/' ↔ cs.head? = some '/' :=
          @octet?_size_iff [] cs '/' (by decide)
        by_cases hend : c = '*' ∧ cs.head? = some '/'
        · obtain ⟨rfl, hhead⟩ := hend
          obtain ⟨rest, rfl⟩ := List.head?_eq_some_iff.mp hhead
          rw [octets_cons, hb, List.singleton_append, commentEndIdx?,
            if_pos ⟨hchar, hnext.mpr hhead⟩]
          rfl
        · refine hskip hend ?_
          rw [octets_cons, hb, List.singleton_append, commentEndIdx?,
            if_neg (by rwa [hchar, hnext]), utf8Size_of_ascii hc]

theorem blockCommentEnd_eq {text front cs : List Char}
    (htext : text = front ++ '/' :: '*' :: cs) :
    blockCommentEnd (octets text) (size front) =
      .ok (size front + 2 + size (blockCommentRest cs).1) := by
  have htwo : size front + 2 = size (front ++ ['/', '*']) := by
    rw [size_append]
    rfl
  have hsplit : text = front ++ ['/', '*'] ++ cs := by simpa using htext
  subst hsplit
  rw [blockCommentEnd, htwo, bytesFrom_eq, ok_bind, ← commentEndIdx?_octets]
  split
  · rename_i n hn
    rw [hn]
    rfl
  · rename_i hn
    rw [hn]
    simp [Nat.add_assoc]

/-! ## Quoted strings -/

theorem quotedEnd_of_wide {text : List Char} {quote : Char}
    (hquote : quote = '\'' ∨ quote = '"') {i : Nat} {d : Char}
    (hd : octet? (octets text) i = some d) (hwide : IsWide d) :
    quotedEnd (octets text) quote i = quotedEnd (octets text) quote (i + 1) := by
  have hlt : i < (octets text).length := by simpa using lt_size_of_octet? hd
  have hne : d ≠ quote := by
    rcases hquote with rfl | rfl
    all_goals exact ne_of_isWide hwide (by decide)
  conv_lhs => rw [quotedEnd]
  rw [if_pos hlt, octetAt_eq hd, ok_bind, if_neg (ne_of_isWide hwide (by decide)),
    if_neg (ne_of_isWide hwide (by decide)), if_neg hne]

theorem quotedEnd_stub {text front : List Char} (htext : text = front ++ ['\\'])
    (quote : Char) :
    quotedEnd (octets text) quote (size front) = .ok (size front + 1) := by
  have hsize : (octets text).length = size front + 1 := by
    rw [length_octets, htext, size_concat_ascii front (by decide)]
  rw [quotedEnd, if_pos (lt_length_octets htext), octetAt_ascii htext (by decide), ok_bind,
    if_pos rfl, quotedEnd, if_neg (by omega), hsize, pure_eq_ok]

theorem quotedEnd_eq {quote : Char} (hquote : quote = '\'' ∨ quote = '"')
    {text front cs : List Char} (htext : text = front ++ cs) :
    quotedEnd (octets text) quote (size front) =
      .ok (size front + size (quotedRest quote cs).1) := by
  fun_induction quotedRest quote cs generalizing front with
  | case1 =>
      rw [quotedEnd, if_neg (by simp [htext])]
      simp [htext]
  | case2 c rest body tail hrest ih =>
      have hnext : text = front ++ ['\\'] ++ c :: rest := by simpa using htext
      have hbehind : text = front ++ ['\\', c] ++ rest := by simpa using htext
      -- the backslash takes one byte of `c`, the others are passed over one by one
      have htwo : size front + 2 = size (front ++ ['\\']) + 1 := by
        rw [size_concat_ascii front (by decide)]
      have hskip := skip_octet (f := quotedEnd (octets text) quote) hnext
        fun i d => quotedEnd_of_wide hquote
      rw [quotedEnd, if_pos (lt_length_octets htext), octetAt_ascii htext (by decide),
        ok_bind, if_pos rfl, htwo, hskip, List.append_assoc, List.singleton_append,
        ih hbehind, hrest]
      simp [Nat.add_assoc]
  | case3 rest =>
      rw [quotedEnd, if_pos (lt_length_octets htext), octetAt_ascii htext (by decide),
        ok_bind, if_neg (by decide), if_pos rfl]
      rfl
  | case4 rest _ hline =>
      have hascii : ¬IsWide quote ∧ quote ≠ '\\' := by
        rcases hquote with rfl | rfl
        all_goals decide
      rw [quotedEnd, if_pos (lt_length_octets htext), octetAt_ascii htext hascii.1, ok_bind,
        if_neg hascii.2, if_neg hline, if_pos rfl, ← size_concat_ascii front hascii.1]
      simp
  | case5 c rest hescape hline hclose body tail hrest ih =>
      have hbehind : text = front ++ [c] ++ rest := by simpa using htext
      have hstep : c ≠ '\\' →
          quotedEnd (octets text) quote (size front) =
            quotedEnd (octets text) quote (size (front ++ [c])) := by
        intro hc
        by_cases hwide : IsWide c
        · exact skip_wide (f := quotedEnd (octets text) quote) htext hwide
            (fun i d => quotedEnd_of_wide hquote) (Nat.zero_le _)
        · rw [quotedEnd, if_pos (lt_length_octets htext), octetAt_ascii htext hwide,
            ok_bind, if_neg hc, if_neg hline, if_neg hclose, size_concat_ascii front hwide]
      by_cases hc : c = '\\'
      · subst hc
        cases rest with
        | nil =>
            obtain ⟨rfl, rfl⟩ := Prod.mk.inj hrest
            exact quotedEnd_stub htext quote
        | cons d rest => exact (hescape d rest rfl rfl).elim
      · rw [hstep hc, ih hbehind, hrest]
        simp [Nat.add_assoc]

/-! ## Templates -/

theorem templateEnd_of_wide {text : List Char} {inner i : Nat} {d : Char}
    (hd : octet? (octets text) i = some d) (hwide : IsWide d) :
    templateEnd (octets text) inner i = templateEnd (octets text) inner (i + 1) := by
  have hlt : i < (octets text).length := by simpa using lt_size_of_octet? hd
  have hne : ∀ {c : Char}, ¬IsWide c → d ≠ c := fun hc => ne_of_isWide hwide hc
  conv_lhs => rw [templateEnd]
  rw [if_pos hlt, octetAt_eq hd, ok_bind, if_neg (hne (by decide)),
    if_neg fun h => hne (by decide) h.1, if_neg fun h => hne (by decide) h.1,
    if_neg fun h => hne (by decide) h.1, if_neg fun h => hne (by decide) h.1]

theorem templateEnd_zero_cons {text front rest : List Char} {c : Char}
    (htext : text = front ++ c :: rest) (hc : c ≠ '\\') (htick : c ≠ '`')
    (hdollar : c = '$' → rest.head? ≠ some '{') :
    templateEnd (octets text) 0 (size front) =
      templateEnd (octets text) 0 (size (front ++ [c])) := by
  by_cases hwide : IsWide c
  · exact skip_wide (f := templateEnd (octets text) 0) htext hwide
      (fun i d => templateEnd_of_wide) (Nat.zero_le _)
  · have hnext : text = front ++ [c] ++ rest := by simpa using htext
    have henter :
        ¬(c = '$' ∧ 0 = 0 ∧ octet? (octets text) (size front + 1) = some '{') := by
      rintro ⟨rfl, -, hbrace⟩
      rw [← size_concat_ascii front hwide, hnext, octet?_size_iff (by decide)] at hbrace
      exact hdollar rfl hbrace
    rw [templateEnd, if_pos (lt_length_octets htext), octetAt_ascii htext hwide, ok_bind,
      if_neg hc, if_neg henter, if_neg (by simp), if_neg (by simp),
      if_neg fun h => htick h.1, size_concat_ascii front hwide]

theorem templateEnd_succ_cons {text front rest : List Char} {c : Char}
    (htext : text = front ++ c :: rest) (d : Nat) (hc : c ≠ '\\') :
    templateEnd (octets text) (d + 1) (size front) =
      templateEnd (octets text) (if c = '{' then d + 2 else if c = '}' then d else d + 1)
        (size (front ++ [c])) := by
  by_cases hwide : IsWide c
  · rw [if_neg (ne_of_isWide hwide (by decide)), if_neg (ne_of_isWide hwide (by decide))]
    exact skip_wide (f := templateEnd (octets text) (d + 1)) htext hwide
      (fun i d => templateEnd_of_wide) (Nat.zero_le _)
  · rw [templateEnd, if_pos (lt_length_octets htext), octetAt_ascii htext hwide, ok_bind,
      if_neg hc, if_neg (by simp), size_concat_ascii front hwide]
    by_cases hopen : c = '{'
    · rw [if_pos ⟨hopen, by omega⟩, if_pos hopen]
    · rw [if_neg fun h => hopen h.1, if_neg hopen]
      by_cases hclose : c = '}'
      · rw [if_pos ⟨hclose, by omega⟩, if_pos hclose]
        rfl
      · rw [if_neg fun h => hclose h.1, if_neg hclose, if_neg (by simp)]

theorem templateEnd_stub {text front : List Char} (htext : text = front ++ ['\\'])
    (inner : Nat) :
    templateEnd (octets text) inner (size front) = .ok (size front + 1) := by
  have hsize : (octets text).length = size front + 1 := by
    rw [length_octets, htext, size_concat_ascii front (by decide)]
  rw [templateEnd, if_pos (lt_length_octets htext), octetAt_ascii htext (by decide),
    ok_bind, if_pos rfl, templateEnd, if_neg (by omega), hsize, pure_eq_ok]

theorem templateEnd_eq {text front cs : List Char} (htext : text = front ++ cs)
    (inner : Nat) :
    templateEnd (octets text) inner (size front) =
      .ok (size front + size (templateRest inner cs).1) := by
  fun_induction templateRest inner cs generalizing front with
  | case1 inner =>
      rw [templateEnd, if_neg (by simp [htext])]
      simp [htext]
  | case2 inner c rest body tail hrest ih =>
      have hnext : text = front ++ ['\\'] ++ c :: rest := by simpa using htext
      have hbehind : text = front ++ ['\\', c] ++ rest := by simpa using htext
      have htwo : size front + 2 = size (front ++ ['\\']) + 1 := by
        rw [size_concat_ascii front (by decide)]
      have hskip := skip_octet (f := templateEnd (octets text) inner) hnext
        fun i d => templateEnd_of_wide
      rw [templateEnd, if_pos (lt_length_octets htext), octetAt_ascii htext (by decide),
        ok_bind, if_pos rfl, htwo, hskip, List.append_assoc, List.singleton_append,
        ih hbehind, hrest]
      simp [Nat.add_assoc]
  | case3 rest body tail hrest ih =>
      have hnext : text = front ++ ['$'] ++ '{' :: rest := by simpa using htext
      have hbehind : text = front ++ ['$', '{'] ++ rest := by simpa using htext
      have hbrace : octet? (octets text) (size front + 1) = some '{' := by
        rw [← size_concat_ascii front (c := '$') (by decide), hnext,
          octet?_size_iff (by decide)]
        rfl
      have htwo : size front + 2 = size (front ++ ['$', '{']) := by
        rw [size_append]
        rfl
      rw [templateEnd, if_pos (lt_length_octets htext), octetAt_ascii htext (by decide),
        ok_bind, if_neg (by decide), if_pos ⟨rfl, rfl, hbrace⟩, htwo, ih hbehind, hrest]
      simp [Nat.add_assoc]
  | case4 rest =>
      rw [templateEnd, if_pos (lt_length_octets htext), octetAt_ascii htext (by decide),
        ok_bind]
      simp
      rfl
  | case5 c rest hescape henter htick body tail hrest ih =>
      have hbehind : text = front ++ [c] ++ rest := by simpa using htext
      by_cases hc : c = '\\'
      · subst hc
        cases rest with
        | nil =>
            obtain ⟨rfl, rfl⟩ := Prod.mk.inj hrest
            exact templateEnd_stub htext 0
        | cons d rest => exact (hescape d rest rfl rfl).elim
      · have hdollar : c = '$' → rest.head? ≠ some '{' := by
          intro hc hhead
          obtain ⟨rest', rfl⟩ := List.head?_eq_some_iff.mp hhead
          exact henter rest' hc rfl
        rw [templateEnd_zero_cons htext hc htick hdollar, ih hbehind, hrest]
        simp [Nat.add_assoc]
  | case6 d c rest hescape inner body tail hrest =>
      rename_i ih
      have hbehind : text = front ++ [c] ++ rest := by simpa using htext
      by_cases hc : c = '\\'
      · subst hc
        cases rest with
        | nil =>
            obtain ⟨rfl, rfl⟩ := Prod.mk.inj hrest
            exact templateEnd_stub htext (d + 1)
        | cons d rest => exact (hescape d rest rfl rfl).elim
      · rw [templateEnd_succ_cons htext d hc, ih hbehind, hrest]
        simp [Nat.add_assoc]

/-! ## The end of a literal -/

theorem octet?_behind_tabs {text front cs : List Char} (htext : text = front ++ cs)
    {c : Char} (hc : ¬IsWide c) :
    octet? (octets text) (size (front ++ cs.takeWhile isTab)) = some c ↔
      (cs.dropWhile isTab).head? = some c := by
  have htabs : text = front ++ cs.takeWhile isTab ++ cs.dropWhile isTab := by
    simpa using htext
  rw [htabs]
  exact octet?_size_iff hc

theorem closingSize_eq (cs : List Char) :
    closingSize cs =
      if (cs.dropWhile isTab).head? = some ')' then
        let inner := (cs.dropWhile isTab).tail
        size (cs.takeWhile isTab) + 1 +
          if (inner.dropWhile isTab).head? = some ';' then size (inner.takeWhile isTab) + 1
          else 0
      else 0 := by
  unfold closingSize
  split
  · rename_i inner hinner
    simp only [hinner, List.head?_cons, if_true, List.tail_cons]
    split
    · rename_i rest hrest
      simp only [hrest, List.head?_cons, if_true]
      rfl
    · rename_i hnone
      rw [if_neg]
      intro hhead
      obtain ⟨rest, hrest⟩ := List.head?_eq_some_iff.mp hhead
      exact hnone rest hrest
  · rename_i hnone
    rw [if_neg]
    intro hhead
    obtain ⟨inner, hinner⟩ := List.head?_eq_some_iff.mp hhead
    exact hnone inner hinner

theorem closingEnd_eq {text front cs : List Char} (htext : text = front ++ cs) :
    closingEnd (octets text) (size front) = .ok (size front + closingSize cs) := by
  have hparen := @octet?_behind_tabs _ _ _ htext ')' (by decide)
  rw [closingEnd, skipWhile_rest_eq (fun c => isTab_of_isWide) htext, ok_bind,
    closingSize_eq]
  by_cases hhead : (cs.dropWhile isTab).head? = some ')'
  · obtain ⟨inner, hinner⟩ := List.head?_eq_some_iff.mp hhead
    have hnext : text = front ++ cs.takeWhile isTab ++ [')'] ++ inner := by
      rw [htext, List.append_assoc, List.append_assoc, List.singleton_append, ← hinner,
        List.takeWhile_append_dropWhile]
    have hsemicolon := @octet?_behind_tabs _ _ _ hnext ';' (by decide)
    have hone : size (front ++ cs.takeWhile isTab) + 1 =
        size (front ++ cs.takeWhile isTab ++ [')']) :=
          (size_concat_ascii _ (by decide)).symm
    rw [if_pos (hparen.mpr hhead), if_pos hhead, hone,
      skipWhile_rest_eq (fun c => isTab_of_isWide) hnext, ok_bind, hinner, List.tail_cons]
    dsimp only
    by_cases hlast : (inner.dropWhile isTab).head? = some ';'
    · rw [if_pos (hsemicolon.mpr hlast), if_pos hlast, size_append, ← hone, size_append]
      exact congrArg Except.ok (by omega)
    · rw [if_neg fun h => hlast (hsemicolon.mp h), if_neg hlast, ← hone, size_append]
      exact congrArg Except.ok (by omega)
  · rw [if_neg fun h => hhead (hparen.mp h), if_neg hhead]
    rfl

end StylePrune.Literal.Octets
