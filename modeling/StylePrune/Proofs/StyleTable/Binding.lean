import StylePrune.Proofs.Literal.Frame
import StylePrune.Proofs.Literal.Joining
import StylePrune.Proofs.Text.Word

/-!
# The name a literal is bound to

A declaration binds the literal that it ends in front of.  Only the last line in front of
the literal is looked at, and of the declarations on it that reach up to the literal the
first one counts.  An annotation may be any text without a sign, so a declaration whose
annotation is still open swallows all others behind it on its line: `binding_eq_some_iff`
says that a declaration gives its name to the literal if it stands on one line and none
in front of it is left open, and that nothing else does.
-/

namespace StylePrune.StyleTable

/-! ## Declarations -/

/-- A character that a declared name may go on with. -/
def isNamePart (c : Char) : Bool :=
  Text.isWordChar c || c == '$'

theorem isNamePart_eq_false_of_isBlank {c : Char} (h : Text.isBlank c = true) :
    isNamePart c = false := by
  have hdollar : c ≠ '$' := Literal.ne_of_isBlank h (by decide)
  simp [isNamePart, Text.isWordChar_eq_false_of_isBlank h, hdollar]

/-- Every identifier of ASCII can be declared. -/
theorem isNamePart_of_isWordPart {c : Char} (h : Literal.isWordPart c = true) :
    isNamePart c = true :=
  Text.of_isWordPart (by decide +kernel) h

/-- The words that a declaration begins with. -/
def keywords : List String :=
  ["const", "let", "var"]

theorem forall_isNamePart {keyword : String} (h : keyword ∈ keywords) :
    ∀ c ∈ keyword.toList, isNamePart c = true := by
  simp only [keywords, List.mem_cons, List.not_mem_nil, or_false] at h
  rcases h with rfl | rfl | rfl <;> exact Text.forall_mem_of_all (by decide +kernel)

/-- A keyword and a name, and the white space behind them. -/
structure Head where
  keyword : String
  gap : List Char
  first : Char
  others : List Char
  space : List Char
  keyword_mem : keyword ∈ keywords
  gap_ne_nil : gap ≠ []
  gap_blank : ∀ c ∈ gap, Text.isBlank c = true
  first_wordStart : Literal.isWordStart first = true
  others_namePart : ∀ c ∈ others, isNamePart c = true
  space_blank : ∀ c ∈ space, Text.isBlank c = true

/-- The declared name. -/
def Head.name (h : Head) : List Char :=
  h.first :: h.others

def Head.text (h : Head) : List Char :=
  h.keyword.toList ++ (h.gap ++ (h.name ++ h.space))

/-- A head, an optional annotation behind a colon, the sign, and white space. -/
structure Declaration extends Head where
  ascription : List Char
  tail : List Char
  ascription_colon : ascription = [] ∨ ∃ type, ascription = ':' :: type
  ascription_noSign : '=' ∉ ascription
  tail_blank : ∀ c ∈ tail, Text.isBlank c = true

def Declaration.text (d : Declaration) : List Char :=
  d.toHead.text ++ (d.ascription ++ '=' :: d.tail)

theorem Head.head?_name (h : Head) {rest : List Char} (c : Char)
    (hc : (h.name ++ rest).head? = some c) : Text.isBlank c = false := by
  obtain rfl : h.first = c := by simpa [Head.name] using hc
  by_contra hblank
  have hstart := Literal.isWordStart_eq_false_of_isBlank (by simpa using hblank)
  rw [h.first_wordStart] at hstart
  cases hstart

theorem Head.name_namePart (h : Head) : ∀ c ∈ h.name, isNamePart c = true := by
  intro c hc
  rcases List.mem_cons.mp hc with rfl | hc
  · exact isNamePart_of_isWordPart (Text.isWordPart_of_isWordStart h.first_wordStart)
  · exact h.others_namePart c hc

theorem Head.sign_notMem (h : Head) : '=' ∉ h.text := by
  have hkeyword : ∀ keyword ∈ keywords, '=' ∉ keyword.toList := by decide
  have hblank : ∀ space : List Char, (∀ c ∈ space, Text.isBlank c = true) → '=' ∉ space :=
    fun space hspace hmem => absurd (hspace _ hmem) (by decide)
  have hname : '=' ∉ h.name := fun hmem =>
    absurd (h.name_namePart _ hmem) (by decide +kernel)
  simp only [Head.text, List.mem_append, not_or]
  exact ⟨hkeyword _ h.keyword_mem, hblank _ h.gap_blank, hname, hblank _ h.space_blank⟩

/-- A text that ends inside the annotation of a declaration. -/
def LeavesOpen (text : List Char) : Prop :=
  ∃ (front : List Char) (h : Head) (type : List Char),
    text = front ++ h.text ++ ':' :: type ∧ '=' ∉ type

/-! ## Reading one declaration -/

/-- What ends a declaration behind its name. -/
def IsAssignment (text : List Char) : Prop :=
  ∃ ascription tail, text = ascription ++ '=' :: tail ∧
    (ascription = [] ∨ ∃ type, ascription = ':' :: type) ∧ '=' ∉ ascription ∧
      ∀ c ∈ tail, Text.isBlank c = true

theorem Declaration.isAssignment (d : Declaration) :
    IsAssignment (d.ascription ++ '=' :: d.tail) :=
  ⟨d.ascription, d.tail, rfl, d.ascription_colon, d.ascription_noSign, d.tail_blank⟩

theorem isAssignment_iff {text : List Char} :
    IsAssignment text ↔
      ∃ tail, (if text.head? = some ':' then text.dropWhile (· != '=') else text) =
        '=' :: tail ∧
        Text.trimStart tail = [] := by
  have htrim : ∀ tail, Text.trimStart tail = [] ↔ ∀ c ∈ tail, Text.isBlank c = true := by
    intro tail
    exact List.dropWhile_eq_nil_iff
  constructor
  · rintro ⟨ascription, tail, rfl, hcolon, hsign, hblank⟩
    refine ⟨tail, ?_, (htrim tail).mpr hblank⟩
    rcases hcolon with rfl | ⟨type, rfl⟩
    · rfl
    · rw [List.cons_append, List.head?_cons, if_pos rfl, ← List.cons_append]
      refine Text.dropWhile_append_eq ?_ (by simp)
      intro c hc
      simpa using fun heq : c = '=' => hsign (heq ▸ hc)
  · rintro ⟨tail, htext, hblank⟩
    by_cases hcolon : text.head? = some ':'
    · rw [if_pos hcolon] at htext
      refine ⟨text.takeWhile (· != '='), tail, ?_, Or.inr ?_, ?_, (htrim tail).mp hblank⟩
      · rw [← htext, List.takeWhile_append_dropWhile]
      · obtain ⟨rest, rfl⟩ := List.head?_eq_some_iff.mp hcolon
        exact ⟨_, rfl⟩
      · intro hsign
        simpa using List.mem_takeWhile_imp hsign
    · rw [if_neg hcolon] at htext
      exact ⟨[], tail, htext, Or.inl rfl, List.not_mem_nil, (htrim tail).mp hblank⟩

theorem assignedName?_cons_eq_some_iff {c : Char} {text : List Char} {name : String} :
    assignedName? (c :: text) = some name ↔
      Literal.isWordStart c = true ∧
        IsAssignment (Text.trimStart (text.dropWhile isNamePart)) ∧
          String.ofList (c :: text.takeWhile isNamePart) = name := by
  have hclass : (fun d => Text.isWordChar d || d == '$') = isNamePart := rfl
  simp only [isAssignment_iff, assignedName?, hclass]
  generalize (if (Text.trimStart (text.dropWhile isNamePart)).head? = some ':' then
    (Text.trimStart (text.dropWhile isNamePart)).dropWhile (· != '=')
    else Text.trimStart (text.dropWhile isNamePart)) = rest
  split
  · rename_i hstart
    split
    · simp [hstart]
    · rename_i hother
      simpa [hstart] using fun tail htail => (hother tail htail).elim
  · rename_i hstart
    simp [hstart]

theorem IsAssignment.head?_cases {text : List Char} (h : IsAssignment text) :
    text.head? = some ':' ∨ text.head? = some '=' := by
  obtain ⟨ascription, tail, rfl, hcolon, -⟩ := h
  rcases hcolon with rfl | ⟨type, rfl⟩
  · exact Or.inr rfl
  · exact Or.inl rfl

theorem IsAssignment.head?_isBlank {text : List Char} (h : IsAssignment text) (c : Char)
    (hc : text.head? = some c) : Text.isBlank c = false := by
  rcases h.head?_cases with hhead | hhead
  all_goals
    obtain rfl := Option.some.inj (hhead.symm.trans hc)
    rfl

/-- Neither white space nor an assignment goes on with a name. -/
theorem IsAssignment.head?_append {text space : List Char} (h : IsAssignment text)
    (hspace : ∀ c ∈ space, Text.isBlank c = true) {c : Char}
    (hc : (space ++ text).head? = some c) : isNamePart c = false := by
  rw [List.head?_append, Option.or_eq_some_iff] at hc
  rcases hc with hhead | ⟨-, hhead⟩
  · exact isNamePart_eq_false_of_isBlank (hspace c (List.mem_of_head? hhead))
  · rcases h.head?_cases with hcolon | hsign
    · obtain rfl : ':' = c := Option.some.inj (hcolon.symm.trans hhead)
      decide +kernel
    · obtain rfl : '=' = c := Option.some.inj (hsign.symm.trans hhead)
      decide +kernel

theorem assignedName?_eq_some_iff {text : List Char} {name : String} :
    assignedName? text = some name ↔
      ∃ first others space rest, text = first :: others ++ (space ++ rest) ∧
        Literal.isWordStart first = true ∧ (∀ c ∈ others, isNamePart c = true) ∧
          (∀ c ∈ space, Text.isBlank c = true) ∧ IsAssignment rest ∧
            String.ofList (first :: others) = name := by
  constructor
  · intro h
    cases text with
    | nil => cases h
    | cons c text =>
        obtain ⟨hstart, hassign, hname⟩ := assignedName?_cons_eq_some_iff.mp h
        refine ⟨c, text.takeWhile isNamePart,
          (text.dropWhile isNamePart).takeWhile Text.isBlank,
          Text.trimStart (text.dropWhile isNamePart), ?_, hstart, ?_, ?_, hassign, hname⟩
        · rw [Text.trimStart, List.takeWhile_append_dropWhile, List.cons_append,
            List.takeWhile_append_dropWhile]
        · exact fun d hd => List.mem_takeWhile_imp hd
        · exact fun d hd => List.mem_takeWhile_imp hd
  · rintro ⟨first, others, space, rest, rfl, hstart, hothers, hspace, hassign, rfl⟩
    have hbehind : ∀ c, (space ++ rest).head? = some c → isNamePart c = false :=
      fun c hc => hassign.head?_append hspace hc
    rw [List.cons_append, assignedName?_cons_eq_some_iff,
      Text.takeWhile_append_eq hothers hbehind, Text.dropWhile_append_eq hothers hbehind,
      Text.trimStart, Text.dropWhile_append_eq hspace hassign.head?_isBlank]
    exact ⟨hstart, hassign, rfl⟩

/-- A text begins with one keyword at most. -/
theorem isPrefixOf?_keyword {keyword keyword' : String} (h : keyword ∈ keywords)
    (h' : keyword' ∈ keywords) (text : List Char) :
    keyword'.toList.isPrefixOf? (keyword.toList ++ text) =
      if keyword' = keyword then some text else none := by
  simp only [keywords, List.mem_cons, List.not_mem_nil, or_false] at h h'
  rcases h with rfl | rfl | rfl <;> rcases h' with rfl | rfl | rfl <;> rfl

theorem declaredName?_eq_some_iff_exists_keyword {text : List Char} {name : String} :
    declaredName? text = some name ↔
      ∃ keyword ∈ keywords, ∃ b rest, text = keyword.toList ++ b :: rest ∧
        Text.isBlank b = true ∧ assignedName? (Text.trimStart rest) = some name := by
  constructor
  · intro h
    obtain ⟨keyword, hkeyword, hname⟩ := List.exists_of_findSome?_eq_some h
    refine ⟨keyword, hkeyword, ?_⟩
    split at hname
    · rename_i b rest hprefix
      refine ⟨b, rest, Text.eq_append_of_isPrefixOf? hprefix, ?_⟩
      by_cases hb : Text.isBlank b = true
      · rw [if_pos hb] at hname
        exact ⟨hb, hname⟩
      · rw [if_neg hb] at hname
        cases hname
    · cases hname
  · rintro ⟨keyword, hkeyword, b, rest, rfl, hb, hname⟩
    obtain ⟨before, after, hsplit, hnew⟩ := List.eq_append_cons_of_mem hkeyword
    refine List.findSome?_eq_some_iff.mpr ⟨before, keyword, after, hsplit, ?_, ?_⟩
    · simp [isPrefixOf?_keyword hkeyword hkeyword, hb, hname]
    · intro keyword' hbefore
      have hkeyword' : keyword' ∈ keywords := hsplit ▸ List.mem_append_left _ hbefore
      have hne : keyword' ≠ keyword := fun heq => hnew (heq ▸ hbefore)
      simp [isPrefixOf?_keyword hkeyword hkeyword', hne]

/-- Declarations, and nothing else, are read as such. -/
theorem declaredName?_eq_some_iff {text : List Char} {name : String} :
    declaredName? text = some name ↔
      ∃ d : Declaration, text = d.text ∧ String.ofList d.name = name := by
  rw [declaredName?_eq_some_iff_exists_keyword]
  constructor
  · rintro ⟨keyword, hkeyword, b, behind, rfl, hb, hname⟩
    obtain ⟨first, others, space, rest, hbehind, hstart, hothers, hspace, hassign, rfl⟩ :=
      assignedName?_eq_some_iff.mp hname
    obtain ⟨ascription, tail, rfl, hcolon, hsign, htail⟩ := hassign
    obtain ⟨gap, hsplit, hgap⟩ : ∃ gap, behind = gap ++ Text.trimStart behind ∧
        ∀ c ∈ gap, Text.isBlank c = true :=
      ⟨behind.takeWhile Text.isBlank, List.takeWhile_append_dropWhile.symm,
        fun c hc => List.mem_takeWhile_imp hc⟩
    rw [hbehind] at hsplit
    refine ⟨⟨⟨keyword, b :: gap, first, others, space, hkeyword, by simp, ?_,
      hstart, hothers,
      hspace⟩, ascription, tail, hcolon, hsign, htail⟩, ?_, rfl⟩
    · intro c hc
      rcases List.mem_cons.mp hc with rfl | hc
      · exact hb
      · exact hgap c hc
    · simp [hsplit, Declaration.text, Head.text, Head.name]
  · rintro ⟨d, rfl, rfl⟩
    obtain ⟨b, gap, hgap⟩ := List.exists_cons_of_ne_nil d.gap_ne_nil
    have hblank : ∀ c ∈ b :: gap, Text.isBlank c = true := hgap ▸ d.gap_blank
    refine ⟨d.keyword, d.keyword_mem, b,
      gap ++ (d.name ++ (d.space ++ (d.ascription ++ '=' :: d.tail))), ?_,
      hblank b List.mem_cons_self, ?_⟩
    · simp [Declaration.text, Head.text, hgap]
    · have htrim : Text.trimStart (gap ++ (d.name ++ (d.space ++
          (d.ascription ++ '=' :: d.tail)))) =
            d.name ++ (d.space ++ (d.ascription ++ '=' :: d.tail)) := by
        exact Text.dropWhile_append_eq (fun c hc => hblank c (List.mem_cons_of_mem _ hc))
          d.head?_name
      rw [htrim, assignedName?_eq_some_iff]
      exact ⟨_, _, _, _, rfl, d.first_wordStart, d.others_namePart, d.space_blank,
        d.isAssignment, rfl⟩

/-! ## The first declaration of a line -/

/-- The reader of a line takes the declaration that begins first of those that reach up
to the end of the line. -/
theorem bindingOfLine?_eq_some_iff {line : List Char} {name : String} :
    bindingOfLine? line = some name ↔
      ∃ (front : List Char) (d : Declaration), line = front ++ d.text ∧
        String.ofList d.name = name ∧
          ∀ (front' : List Char) (d' : Declaration), line = front' ++ d'.text →
            front.length ≤ front'.length := by
  induction line with
  | nil =>
      constructor
      · intro h
        cases h
      · rintro ⟨front, d, hline, -⟩
        simp [Declaration.text] at hline
  | cons c line ih =>
      rw [bindingOfLine?]
      cases hhead : declaredName? (c :: line) with
      | some found =>
          obtain ⟨d, hd, rfl⟩ := declaredName?_eq_some_iff.mp hhead
          rw [Option.orElse_some]
          constructor
          · intro h
            exact ⟨[], d, hd, Option.some.inj h, fun _ _ _ => Nat.zero_le _⟩
          · rintro ⟨front, d', hline, rfl, hfirst⟩
            obtain rfl : front = [] :=
              List.eq_nil_of_length_eq_zero (Nat.le_zero.mp (hfirst [] d hd))
            rw [← hhead, declaredName?_eq_some_iff]
            exact ⟨d', hline, rfl⟩
      | none =>
          have hnone : ∀ d : Declaration, c :: line ≠ d.text := by
            intro d hd
            rw [declaredName?_eq_some_iff.mpr ⟨d, hd, rfl⟩] at hhead
            cases hhead
          rw [Option.orElse_none, ih]
          constructor
          · rintro ⟨front, d, rfl, hname, hfirst⟩
            refine ⟨c :: front, d, rfl, hname, ?_⟩
            intro front' d' hline
            cases front' with
            | nil => exact absurd hline (hnone d')
            | cons c' front' =>
              exact Nat.succ_le_succ (hfirst front' d' (List.cons.inj hline).2)
          · rintro ⟨front, d, hline, hname, hfirst⟩
            cases front with
            | nil => exact absurd hline (hnone d)
            | cons c' front =>
                obtain ⟨rfl, rfl⟩ := List.cons.inj hline
                refine ⟨front, d, rfl, hname, ?_⟩
                intro front' d' hline'
                exact Nat.le_of_succ_le_succ
                  (hfirst (c :: front') d' (congrArg (c :: ·) hline'))

/-- The characters that a declaration begins with. -/
def initials : List Char :=
  ['c', 'l', 'v']

/-- No keyword goes on with the beginning of one. -/
theorem exists_cons_of_keyword {keyword : String} (h : keyword ∈ keywords) :
    ∃ k rest, keyword.toList = k :: rest ∧ k ∈ initials ∧ ∀ c ∈ initials, c ∉ rest := by
  simp only [keywords, List.mem_cons, List.not_mem_nil, or_false] at h
  rcases h with rfl | rfl | rfl <;>
    exact ⟨_, _, rfl, by decide, Text.forall_mem_of_all (by decide)⟩

theorem Declaration.exists_cons (d : Declaration) :
    ∃ k back, d.text = k :: back ∧ k ∈ initials := by
  obtain ⟨k, rest, hk, hmem, -⟩ := exists_cons_of_keyword d.keyword_mem
  rw [Declaration.text, Head.text, hk]
  exact ⟨k, _, rfl, hmem⟩

theorem initial_notMem_of_blank {k : Char} (hk : k ∈ initials) {space : List Char}
    (h : ∀ c ∈ space, Text.isBlank c = true) : k ∉ space := by
  intro hmem
  have hother : ∀ c ∈ initials, Text.isBlank c = false :=
    Text.forall_mem_of_all (by decide)
  exact absurd (h k hmem) (by simp [hother k hk])

theorem Declaration.initial_notMem_tail (d : Declaration) {k : Char} (hk : k ∈ initials) :
    k ∉ '=' :: d.tail := by
  have hsign : ∀ c ∈ initials, c ≠ '=' := Text.forall_mem_of_all (by decide)
  exact List.not_mem_cons_of_ne_of_not_mem (hsign k hk)
    (initial_notMem_of_blank hk d.tail_blank)

/-- No declaration begins in a name that is assigned to. -/
theorem Declaration.ne_word_append (d : Declaration) {word space rest : List Char}
    (hword : ∀ c ∈ word, isNamePart c = true) (hspace : ∀ c ∈ space, Text.isBlank c = true)
    (hassign : IsAssignment rest) : d.text ≠ word ++ (space ++ rest) := by
  intro h
  obtain ⟨b, gap, hgap⟩ := List.exists_cons_of_ne_nil d.gap_ne_nil
  have hkeyword : ∀ c ∈ d.keyword.toList, isNamePart c = true :=
    forall_isNamePart d.keyword_mem
  have htext : d.keyword.toList ++ (d.gap ++ (d.name ++ (d.space ++
      (d.ascription ++ '=' :: d.tail)))) = word ++ (space ++ rest) := by
    rw [← h, Declaration.text, Head.text]
    simp
  have hgapHead : ∀ c, (d.gap ++ (d.name ++ (d.space ++
      (d.ascription ++ '=' :: d.tail)))).head? = some c → isNamePart c = false := by
    intro c hc
    obtain rfl : b = c := by simpa [hgap] using hc
    exact isNamePart_eq_false_of_isBlank (d.gap_blank b (hgap ▸ List.mem_cons_self))
  -- with the keyword and the white space gone, a name is left here and an assignment there
  have hbehind := congrArg (List.dropWhile isNamePart) htext
  rw [Text.dropWhile_append_eq hkeyword hgapHead, Text.dropWhile_append_eq hword
    fun c hc => hassign.head?_append hspace hc] at hbehind
  have hname := congrArg (List.dropWhile Text.isBlank) hbehind
  rw [Text.dropWhile_append_eq d.gap_blank d.head?_name, Text.dropWhile_append_eq hspace
    hassign.head?_isBlank] at hname
  rcases hassign.head?_cases with hhead | hhead
  all_goals
    rw [← hname] at hhead
    have hfirst := d.first_wordStart
    rw [show d.first = _ from Option.some.inj hhead] at hfirst
    exact absurd hfirst (by decide)

/-- What stands in front of a declaration inside of another one is the front of the
latter up to a place in its annotation. -/
theorem Declaration.exists_head_of_append {d d' : Declaration} {front : List Char}
    (hfront : front ≠ []) (h : d'.text = front ++ d.text) :
    ∃ type, front = d'.toHead.text ++ ':' :: type ∧ '=' ∉ type := by
  obtain ⟨k, back, hback, hk⟩ := d.exists_cons
  obtain ⟨c, others, hc, -, hothers⟩ := exists_cons_of_keyword d'.keyword_mem
  obtain ⟨c', front, rfl⟩ := List.exists_cons_of_ne_nil hfront
  have htext : c :: (others ++ (d'.gap ++ (d'.name ++ (d'.space ++
      (d'.ascription ++ '=' :: d'.tail))))) = c' :: (front ++ k :: back) := by
    rw [← List.cons_append, ← List.cons_append, ← hback, ← h, Declaration.text, Head.text,
      hc]
    simp
  -- the texts are compared piece by piece, and `d` can only begin in the annotation
  obtain ⟨rfl, hkeyword⟩ := List.cons.inj htext
  obtain ⟨front₁, rfl, hgap⟩ := Text.exists_append_of_notMem (hothers k hk) hkeyword
  obtain ⟨front₂, rfl, hname⟩ :=
    Text.exists_append_of_notMem (initial_notMem_of_blank hk d'.gap_blank) hgap
  rcases List.append_eq_append_iff.mp hname with
    ⟨front₃, rfl, hspace⟩ | ⟨word, hword, hspace⟩
  · obtain ⟨front₄, rfl, hascription⟩ :=
      Text.exists_append_of_notMem (initial_notMem_of_blank hk d'.space_blank) hspace
    have hsign : ∀ front', '=' :: d'.tail ≠ front' ++ k :: back := by
      intro front' heq
      exact d'.initial_notMem_tail hk (by simp [heq])
    rcases d'.ascription_colon with hnil | ⟨type, htype⟩
    · rw [hnil, List.nil_append] at hascription
      exact (hsign _ hascription).elim
    · have hcolon : ∀ c ∈ initials, c ∉ [':'] := Text.forall_mem_of_all (by decide)
      rw [htype, List.cons_append, ← List.singleton_append] at hascription
      obtain ⟨front₅, rfl, htail⟩ := Text.exists_append_of_notMem (hcolon k hk) hascription
      refine ⟨front₅, by simp [Head.text, hc], ?_⟩
      rcases List.append_eq_append_iff.mp htail with ⟨front₆, -, heq⟩ | ⟨type', heq, -⟩
      · exact (hsign _ heq).elim
      · intro hmem
        exact d'.ascription_noSign (by simp [htype, heq, hmem])
  · have hparts : ∀ c ∈ word, isNamePart c = true := by
      intro c hc
      exact d'.name_namePart c (by simp [hword, hc])
    rw [← hback] at hspace
    exact (d.ne_word_append hparts d'.space_blank d'.isAssignment hspace).elim

/-- A declaration at the end of a line is the first one there unless one in front of it
is left open. -/
theorem Declaration.isFirst_iff (d : Declaration) (front : List Char) :
    (∀ (front' : List Char) (d' : Declaration), front ++ d.text = front' ++ d'.text →
      front.length ≤ front'.length) ↔ ¬LeavesOpen front := by
  constructor
  · rintro hfirst ⟨front', h, type, rfl, hsign⟩
    -- the annotation that is open ends at the sign of `d`
    have hopen : '=' ∉ ':' :: (type ++ (d.toHead.text ++ d.ascription)) := by
      simp [hsign, d.sign_notMem, d.ascription_noSign]
    let d' : Declaration := ⟨h, ':' :: (type ++ (d.toHead.text ++ d.ascription)), d.tail,
      Or.inr ⟨_, rfl⟩, hopen, d.tail_blank⟩
    have hle := hfirst front' d' (by simp [d', Declaration.text])
    simp only [Head.text, Head.name, List.length_append, List.length_cons] at hle
    omega
  · intro hclosed front' d' heq
    by_contra hlt
    rcases List.append_eq_append_iff.mp heq with ⟨mid, rfl, -⟩ | ⟨mid, rfl, htext⟩
    · simp at hlt
    · have hmid : mid ≠ [] := by
        rintro rfl
        simp at hlt
      obtain ⟨type, rfl, hsign⟩ := Declaration.exists_head_of_append hmid htext
      exact hclosed ⟨front', d'.toHead, type, by simp, hsign⟩

/-- The binding is the name of the declaration on the last line that reaches up to its
end, if none in front of it is left open. -/
theorem binding?_eq_some_iff {front : List Char} {name : String} :
    binding? front = some name ↔
      ∃ (before : List Char) (d : Declaration), front = before ++ d.text ∧
        String.ofList d.name = name ∧ '\n' ∉ d.text ∧
          ¬LeavesOpen (Text.lastLine before) := by
  rw [binding?, bindingOfLine?_eq_some_iff]
  constructor
  · rintro ⟨line, d, hline, hname, hfirst⟩
    have hnewline : '\n' ∉ line ++ d.text := hline ▸ Literal.newline_not_mem_lastLine front
    rw [List.mem_append, not_or] at hnewline
    rw [hline] at hfirst
    have hfront : front = Text.upToLastLine front ++ line ++ d.text := by
      rw [List.append_assoc, ← hline, Text.upToLastLine_append_lastLine]
    refine ⟨Text.upToLastLine front ++ line, d, hfront, hname, hnewline.2, ?_⟩
    have hlast : Text.lastLine (Text.upToLastLine front ++ line) = line := by
      rw [hfront, Text.lastLine_append hnewline.2] at hline
      exact List.append_cancel_right hline
    rw [hlast]
    exact (d.isFirst_iff line).mp hfirst
  · rintro ⟨before, d, rfl, hname, hnewline, hclosed⟩
    have hline := Text.lastLine_append hnewline before
    exact ⟨Text.lastLine before, d, hline, hname, hline ▸ (d.isFirst_iff _).mpr hclosed⟩

/-! ## The binding of a table -/

/-- A table has the binding that is read in front of the literal. -/
theorem extract_binding_eq_some_iff {file : Path} {marker text : List Char}
    {name : String} :
    (extract file marker text).1.table.bind StyleTable.binding = some name ↔
      ∃ front body, text = front ++ marker ++ body ∧ Text.FirstAt marker front body ∧
        binding? front = some name := by
  constructor
  · intro h
    cases hfind : Literal.find? marker text with
    | none =>
        rw [extract, hfind] at h
        cases h
    | some literal =>
        obtain ⟨front, body, ps, rest, hlaid⟩ := Literal.exists_laidOut hfind
        rw [hlaid.extract_eq] at h
        exact ⟨front, _, hlaid.text_eq, hlaid.first, h⟩
  · rintro ⟨front, body, rfl, hfirst, hname⟩
    have hsplit := Text.splitFirst_of_firstAt hfirst
    obtain ⟨literal, hliteral⟩ : ∃ literal,
        Literal.find? marker (front ++ marker ++ body) = some literal :=
      ⟨_, congrArg (Option.map _) hsplit⟩
    obtain ⟨front', _, _, _, hlaid⟩ := Literal.exists_laidOut hliteral
    have hsplit' := Text.splitFirst_of_firstAt hlaid.first
    rw [← hlaid.text_eq, hsplit] at hsplit'
    obtain ⟨rfl, -⟩ := Prod.mk.inj (Option.some.inj hsplit')
    rw [hlaid.extract_eq]
    exact hname

/-- The name that a table has is the one of the declaration in front of the literal.  The
declaration stands on one line, and no declaration in front of it on that line is left
open. -/
theorem binding_eq_some_iff (file : Path) (marker text : List Char) (name : String) :
    (extract file marker text).1.table.bind StyleTable.binding = some name ↔
      ∃ (front : List Char) (d : Declaration) (body : List Char),
        text = front ++ d.text ++ marker ++ body ∧
          Text.FirstAt marker (front ++ d.text) body ∧ String.ofList d.name = name ∧
            '\n' ∉ d.text ∧ ¬LeavesOpen (Text.lastLine front) := by
  rw [extract_binding_eq_some_iff]
  constructor
  · rintro ⟨front, body, htext, hfirst, hname⟩
    obtain ⟨before, d, rfl, hd⟩ := binding?_eq_some_iff.mp hname
    exact ⟨before, d, body, htext, hfirst, hd⟩
  · rintro ⟨before, d, body, htext, hfirst, hd⟩
    exact ⟨before ++ d.text, body, htext, hfirst,
      binding?_eq_some_iff.mpr ⟨before, d, rfl, hd⟩⟩

example : (extract ⟨"s.ts"⟩ Literal.defaultMarker.toList
    "let x = 1; export const styles: Styles = StyleSheet.create({})".toList).1.table.bind
      StyleTable.binding = some "styles" := by
  decide +kernel

/-- The declaration `const s =` with white space behind its sign. -/
def constS (tail : List Char) (h : ∀ c ∈ tail, Text.isBlank c = true) : Declaration where
  keyword := "const"
  gap := [' ']
  first := 's'
  others := []
  space := [' ']
  ascription := []
  tail := tail
  keyword_mem := List.mem_cons_self
  gap_ne_nil := List.cons_ne_nil _ _
  gap_blank := Text.isBlank_of_mem_space
  first_wordStart := rfl
  others_namePart := List.forall_mem_nil _
  space_blank := Text.isBlank_of_mem_space
  ascription_colon := Or.inl rfl
  ascription_noSign := List.not_mem_nil
  tail_blank := h

/-- A line break behind the sign hides the name, and an annotation that no sign ends puts
another name in its place. -/
theorem binding_not_declared :
    let marker := Literal.defaultMarker.toList
    let body := " a: {} \x7d)".toList
    let loop := "for(let i: any;;){} ".toList
    (∃ d : Declaration, String.ofList d.name = "s" ∧ Text.FirstAt marker d.text body ∧
      (extract ⟨"s.ts"⟩ marker (d.text ++ marker ++ body)).1.table.map StyleTable.binding =
        some none) ∧
      ∃ d : Declaration, String.ofList d.name = "s" ∧
        Text.FirstAt marker (loop ++ d.text) body ∧
        (extract ⟨"s.ts"⟩ marker (loop ++ d.text ++ marker ++ body)).1.table.map
          StyleTable.binding = some (some "i") := by
  refine ⟨⟨constS "\n  ".toList (Text.forall_mem_of_all (by decide)), rfl,
    ?_, by decide +kernel⟩,
    ⟨constS [' '] Text.isBlank_of_mem_space, rfl, ?_, by decide +kernel⟩⟩
  · exact Text.firstAt_iff_splitFirst.mpr (by decide +kernel)
  · exact Text.firstAt_iff_splitFirst.mpr (by decide +kernel)

end StylePrune.StyleTable
