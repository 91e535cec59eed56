import StylePrune.Import.Read
import StylePrune.Proofs.Import.Printing

/-!
# The line scanner reads plain imports back

The scanner takes the clause of an import up to the first `from` with a quoted specifier
behind it.  In front of the last `from` of a plain import no quote stands behind any
other, so the whole clause is taken whatever its names are, and the scan goes on at the
next line.  What it finds in a printed list of imports is what the imports mean
(`lineDirectives_printed`).
-/

namespace StylePrune.Import

/-! ## Specifiers -/

/-- Text that goes on without a quote has no specifier in front. -/
theorem specifier?_eq_none {front back : List Char} {c : Char}
    (hfront : ∀ d ∈ front, isQuote d = false) (hquote : isQuote c = false)
    (hblank : Text.isBlank c = false) : specifier? (front ++ c :: back) = none := by
  obtain ⟨d, rest, htrim, hd⟩ : ∃ d rest, Text.trimStart (front ++ c :: back) = d :: rest ∧
      isQuote d = false := by
    rw [Text.trimStart, List.dropWhile_append]
    split
    · exact ⟨c, back, by simp [hblank], hquote⟩
    · rename_i hne
      obtain ⟨d, rest, hrest⟩ := List.exists_cons_of_ne_nil (mt List.isEmpty_iff.mpr hne)
      have hmem : d ∈ front :=
        (List.dropWhile_sublist _).subset (hrest ▸ List.mem_cons_self)
      exact ⟨d, rest ++ c :: back, by rw [hrest]; rfl, hfront d hmem⟩
  simp only [specifier?, htrim]
  split
  · simp [hd]
  · rfl

theorem Source.isBlank_quote (source : Source) : Text.isBlank source.quote = false := by
  have hquote := source.quote_isQuote
  simp only [isQuote, Bool.or_eq_true, beq_iff_eq] at hquote
  rcases hquote with h | h <;> rw [h] <;> rfl

theorem Source.specifier?_append (source : Source) (rest : List Char) :
    specifier? (' ' :: (source.chars ++ rest)) =
      some (source.specifier, source.ending.toList ++ rest) := by
  have hchars : source.chars ++ rest = source.quote :: (source.specifier ++
      (source.quote :: (source.ending.toList ++ rest))) := by simp [chars]
  have htrim : Text.trimStart (' ' :: (source.chars ++ rest)) = source.quote ::
      (source.specifier ++ (source.quote :: (source.ending.toList ++ rest))) := by
    rw [hchars]
    rw [Text.trimStart, List.dropWhile_cons_of_pos (by decide),
      List.dropWhile_cons_of_neg (by simp [source.isBlank_quote])]
  have hinside : ∀ c ∈ source.specifier, (!isQuote c) = true := by
    simpa using source.specifier_noQuote
  have hclosing : ∀ c, (source.quote :: (source.ending.toList ++ rest)).head? = some c →
      (!isQuote c) = false := by
    simp [source.quote_isQuote]
  simp only [specifier?, htrim, Text.takeWhile_append_eq hinside hclosing,
    Text.dropWhile_append_eq hinside hclosing]
  exact if_pos ⟨source.quote_isQuote, source.specifier_ne_nil⟩

/-! ## Clauses -/

/-- A character that a clause may have. -/
def isClauseChar (c : Char) : Bool :=
  !isQuote c && c != ';'

theorem isQuote_eq_false {c : Char} (h : isClauseChar c = true) : isQuote c = false := by
  simp only [isClauseChar, Bool.and_eq_true, Bool.not_eq_true'] at h
  exact h.1

theorem from_toList : "from".toList = ['f', 'r', 'o', 'm'] := rfl

/-- A `from` inside a clause is followed by no specifier. -/
theorem specifier?_inside_eq_none {c : Char} {front behind : List Char}
    (hfront : ∀ d ∈ front, isQuote d = false) :
    ("from".toList.isPrefixOf? (c :: (front ++ ("from".toList ++ behind)))).bind
      specifier? = none := by
  rw [Option.bind_eq_none_iff]
  intro rest hrest
  have htext := Text.eq_append_of_isPrefixOf? hrest
  rw [from_toList] at htext
  obtain ⟨-, htail⟩ := List.cons.inj htext
  -- a second `f` shows that the first `from` ends in front of the other
  have hrom : 'f' ∉ ['r', 'o', 'm'] := by decide
  obtain ⟨inner, rfl, rfl⟩ := Text.exists_append_of_notMem hrom htail.symm
  exact specifier?_eq_none (fun d hd => hfront d (List.mem_append_right _ hd)) rfl rfl

/-- A clause reaches up to the last `from`. -/
theorem clause?_append {front behind specifier rest : List Char}
    (hfront : ∀ c ∈ front, isClauseChar c = true)
    (hbehind : specifier? behind = some (specifier, rest)) :
    clause? (front ++ ("from".toList ++ behind)) = some (front, specifier, rest) := by
  induction front with
  | nil =>
      have hprefix : ['f', 'r', 'o', 'm'].isPrefixOf? ('f' :: (['r', 'o', 'm'] ++ behind)) =
          some behind := List.isPrefixOf?_eq_some_iff_append_eq.mpr rfl
      rw [List.nil_append, from_toList, List.cons_append, clause?]
      simp only [from_toList, hprefix, Option.bind_some, hbehind]
  | cons c front ih =>
      obtain ⟨hc, hrest⟩ := List.forall_mem_cons.mp hfront
      have hother : ¬(isQuote c = true ∨ c = ';') := by simpa [isClauseChar] using hc
      rw [List.cons_append, clause?,
        specifier?_inside_eq_none fun d hd => isQuote_eq_false (hrest d hd), ih hrest]
      exact if_neg hother

/-! ## One import -/

theorem keyword?_append (word : String) {b : Char} (hb : Text.isBlank b = true)
    (rest : List Char) :
    keyword? word (word.toList ++ b :: rest) = some (Text.trimStart rest) := by
  rw [keyword?, List.isPrefixOf?_eq_some_iff_append_eq.mpr rfl]
  exact if_pos hb

theorem keyword?_eq_none {word : String} {text : List Char}
    (h : ∀ b rest, Text.isBlank b = true → word.toList ++ b :: rest ≠ text) :
    keyword? word text = none := by
  rw [keyword?]
  split
  · rename_i b rest hprefix
    exact if_neg fun hb => h b rest hb (Text.eq_append_of_isPrefixOf? hprefix).symm
  · rfl

/-- A clause does not begin with the word `type`. -/
theorem Clause.keyword?_type (clause : Clause) (rest : List Char) :
    keyword? "type" (clause.chars ++ ' ' :: rest) = none := by
  refine keyword?_eq_none fun b behind hb => ?_
  have hpart := Text.isWordPart_eq_false_of_isBlank hb
  have hgroup : ∀ group : Group,
      "type".toList ++ b :: behind ≠ group.chars ++ ' ' :: rest := by
    intro group heq
    have hhead := congrArg List.head? heq
    cases group <;> cases hhead
  cases clause with
  | default name => exact name.type_append_ne hpart (by simp; decide)
  | alone group => exact hgroup group
  | both name group =>
      simp only [chars, List.append_assoc]
      exact name.type_append_ne hpart (by simp [commaWord]; decide)

/-! ## Characters of a clause -/

theorem isClauseChar_of_isWordPart {c : Char} (h : Literal.isWordPart c = true) :
    isClauseChar c = true :=
  Text.of_isWordPart (by decide +kernel) h

theorem isClauseChar_of_isBlank {c : Char} (h : Text.isBlank c = true) :
    isClauseChar c = true := by
  have hclass := Text.eq_false_of_isBlank (p := (!isClauseChar ·)) (by decide +kernel) h
  simpa using hclass

theorem Identifier.forall_isClauseChar (name : Identifier) :
    ∀ c ∈ name.chars, isClauseChar c = true :=
  fun c hc => isClauseChar_of_isWordPart (name.forall_chars c hc)

theorem Group.forall_isClauseChar (group : Group) :
    ∀ c ∈ group.chars, isClauseChar c = true := by
  cases group with
  | braces items trailing closing =>
      have hitems : ∀ c ∈ itemChars trailing items, isClauseChar c = true := by
        intro c hc
        rcases forall_itemChars c hc with h | h | rfl
        · exact isClauseChar_of_isWordPart h
        · exact isClauseChar_of_isBlank h
        · rfl
      have hclosing : ∀ c ∈ closing.val, isClauseChar c = true :=
        fun c hc => isClauseChar_of_isBlank (closing.2 c hc)
      refine List.forall_mem_cons.mpr ⟨rfl, List.forall_mem_append.mpr ⟨?_, ?_⟩⟩
      · exact List.forall_mem_append.mpr ⟨hitems, hclosing⟩
      · exact List.forall_mem_singleton.mpr rfl
  | star name =>
      exact List.forall_mem_append.mpr
        ⟨Text.forall_mem_of_all (by decide), name.forall_isClauseChar⟩

theorem Clause.forall_isClauseChar (clause : Clause) :
    ∀ c ∈ clause.chars, isClauseChar c = true := by
  cases clause with
  | default name => exact name.forall_isClauseChar
  | alone group => exact group.forall_isClauseChar
  | both name group =>
      have hname : ∀ c ∈ name.chars ++ commaWord, isClauseChar c = true :=
        List.forall_mem_append.mpr
          ⟨name.forall_isClauseChar, Text.forall_mem_of_all (by decide)⟩
      exact List.forall_mem_append.mpr ⟨hname, group.forall_isClauseChar⟩

/-- What the scanner takes from a declaration. -/
def Declaration.found? : Declaration → Option LineImport
  | .binding clause source => some ⟨false, clause.chars ++ [' '], source.specifier⟩
  | .typeOnly clause source => some ⟨true, clause.chars ++ [' '], source.specifier⟩
  | .sideEffect _ => none

theorem Clause.clause?_append (clause : Clause) (source : Source) (rest : List Char) :
    clause? (clause.chars ++ (fromWord ++ (source.chars ++ rest))) =
      some (clause.chars ++ [' '], source.specifier, source.ending.toList ++ rest) := by
  have hfront : ∀ c ∈ clause.chars ++ [' '], isClauseChar c = true :=
    List.forall_mem_append.mpr
      ⟨clause.forall_isClauseChar, List.forall_mem_singleton.mpr rfl⟩
  have htext : clause.chars ++ (fromWord ++ (source.chars ++ rest)) =
      clause.chars ++ [' '] ++ ("from".toList ++ ' ' :: (source.chars ++ rest)) := by
    rw [List.append_assoc]
    rfl
  rw [htext]
  exact Import.clause?_append hfront (source.specifier?_append rest)

theorem Clause.trimStart_append (clause : Clause) (rest : List Char) :
    Text.trimStart (clause.chars ++ rest) = clause.chars ++ rest := by
  obtain ⟨c, chars, hchars⟩ := List.exists_cons_of_ne_nil clause.isTight.ne_nil
  have hblank : Text.isBlank c = false := clause.isTight.head c (by simp [hchars])
  rw [hchars, List.cons_append, Text.trimStart,
    List.dropWhile_cons_of_neg (by simp [hblank])]

theorem keyword?_import (rest : List Char) :
    keyword? "import" ((importWord ++ rest).dropWhile Text.isTab) =
      some (Text.trimStart rest) :=
  keyword?_append "import" (b := ' ') rfl rest

/-- The scanner reads a printed import and stops in front of the end of its line. -/
theorem lineImport?_binding (clause : Clause) (source : Source) (rest : List Char) :
    lineImport? ((Declaration.binding clause source).chars ++ rest) =
      some (⟨false, clause.chars ++ [' '], source.specifier⟩,
        source.ending.toList ++ rest) := by
  have himport := keyword?_import (clause.chars ++ (fromWord ++ (source.chars ++ rest)))
  rw [clause.trimStart_append] at himport
  have htype : keyword? "type"
      (clause.chars ++ (fromWord ++ (source.chars ++ rest))) = none :=
    clause.keyword?_type ("from ".toList ++ (source.chars ++ rest))
  simp only [lineImport?, Declaration.chars, List.append_assoc, himport,
    Option.bind_eq_bind, Option.bind_some, htype, clause.clause?_append]
  rfl

theorem lineImport?_typeOnly (clause : Clause) (source : Source) (rest : List Char) :
    lineImport? ((Declaration.typeOnly clause source).chars ++ rest) =
      some (⟨true, clause.chars ++ [' '], source.specifier⟩,
        source.ending.toList ++ rest) := by
  have himport := keyword?_import
    (typeWord ++ (clause.chars ++ (fromWord ++ (source.chars ++ rest))))
  have htrim : Text.trimStart (typeWord ++ (clause.chars ++ (fromWord ++
      (source.chars ++ rest)))) =
        typeWord ++ (clause.chars ++ (fromWord ++ (source.chars ++ rest))) := rfl
  have htype : keyword? "type" (typeWord ++ (clause.chars ++ (fromWord ++
      (source.chars ++ rest)))) =
        some (clause.chars ++ (fromWord ++ (source.chars ++ rest))) := by
    have hkeyword := keyword?_append "type" (b := ' ') rfl
      (clause.chars ++ (fromWord ++ (source.chars ++ rest)))
    rwa [clause.trimStart_append] at hkeyword
  rw [htrim] at himport
  simp only [lineImport?, Declaration.chars, List.append_assoc, himport,
    Option.bind_eq_bind, Option.bind_some, htype, clause.clause?_append]
  rfl

/-- A quoted specifier begins with its quote. -/
theorem Source.cons_ne_append (source : Source) {c : Char} (h : isQuote c = false)
    (text rest : List Char) : c :: text ≠ source.chars ++ rest := by
  intro heq
  have hquote := source.quote_isQuote
  obtain ⟨hc, -⟩ := List.cons.inj heq
  rw [← hc, h] at hquote
  cases hquote

/-- An import without a clause is passed over. -/
theorem lineImport?_sideEffect (source : Source) (rest : List Char) :
    lineImport? ((Declaration.sideEffect source).chars ++ rest) = none := by
  have htrim : Text.trimStart (source.chars ++ rest) = source.chars ++ rest := by
    rw [Source.chars, List.cons_append, Text.trimStart,
      List.dropWhile_cons_of_neg (by simp [source.isBlank_quote])]
  have himport := keyword?_import (source.chars ++ rest)
  rw [htrim] at himport
  have htype : keyword? "type" (source.chars ++ rest) = none :=
    keyword?_eq_none fun b behind _ => source.cons_ne_append (c := 't') rfl _ rest
  have hfrom : "from".toList.isPrefixOf? (source.chars ++ rest) = none := by
    rw [Text.isPrefixOf?_eq_none_iff]
    rintro ⟨behind, hbehind⟩
    exact source.cons_ne_append (c := 'f') rfl _ rest hbehind
  have hclause : clause? (source.chars ++ rest) = none := by
    rw [Source.chars, List.cons_append] at hfrom ⊢
    rw [clause?, hfrom]
    exact if_pos (Or.inl source.quote_isQuote)
  simp only [lineImport?, Declaration.chars, List.append_assoc, himport,
    Option.bind_eq_bind, Option.bind_some, htype, hclause, Option.bind_none]

/-! ## A list of imports -/

/-- The end of a line is where the scan goes on. -/
theorem lineImports_append_newline {line : List Char} (h : '\n' ∉ line) (rest : List Char) :
    lineImports false (line ++ '\n' :: rest) = lineImports true rest := by
  induction line with
  | nil =>
      rw [List.nil_append, lineImports]
      rfl
  | cons c line ih =>
      obtain ⟨hc, hline⟩ := List.ne_and_not_mem_of_not_mem_cons h
      rw [List.cons_append, lineImports]
      simp only [Bool.false_eq_true, if_false]
      rw [beq_eq_false_iff_ne.mpr (Ne.symm hc), ih hline]

theorem lineImports_of_some {text rest : List Char} {found : LineImport}
    (h : lineImport? text = some (found, rest)) :
    lineImports true text = found :: lineImports false rest := by
  rw [lineImports.eq_def, if_pos rfl]
  split
  · rename_i found' rest' h'
    rw [h] at h'
    cases h'
    rfl
  · rename_i h'
    rw [h] at h'
    cases h'

theorem lineImports_of_none {text : List Char} (h : lineImport? text = none) :
    lineImports true text = lineImports false text := by
  rw [lineImports.eq_def, if_pos rfl]
  split
  · rename_i found' rest' h'
    rw [h] at h'
    cases h'
  · rfl

theorem Source.exists_ending (source : Source) :
    ∃ front, source.ending.toList = front ++ ['\n'] ∧ '\n' ∉ front := by
  have hmem := source.ending_mem
  simp only [endings, List.mem_cons, List.not_mem_nil, or_false] at hmem
  rcases hmem with h | h | h | h <;> rw [h]
  · exact ⟨[], rfl, by decide⟩
  · exact ⟨[';'], rfl, by decide⟩
  · exact ⟨['\r'], rfl, by decide⟩
  · exact ⟨[';', '\r'], rfl, by decide⟩

/-- Behind an import the scan goes on at the next line. -/
theorem Source.lineImports_ending (source : Source) (rest : List Char) :
    lineImports false (source.ending.toList ++ rest) = lineImports true rest := by
  obtain ⟨front, hending, hnewline⟩ := source.exists_ending
  rw [hending, List.append_assoc, List.singleton_append,
    lineImports_append_newline hnewline]

/-- One declaration is one step of the scan. -/
theorem Declaration.lineImports_append (declaration : Declaration) (rest : List Char) :
    lineImports true (declaration.chars ++ rest) =
      declaration.found?.toList ++ lineImports true rest := by
  cases declaration with
  | binding clause source =>
      rw [lineImports_of_some (lineImport?_binding clause source rest),
        source.lineImports_ending]
      rfl
  | typeOnly clause source =>
      rw [lineImports_of_some (lineImport?_typeOnly clause source rest),
        source.lineImports_ending]
      rfl
  | sideEffect source =>
      rw [lineImports_of_none (lineImport?_sideEffect source rest)]
      obtain ⟨front, hending, hnewline⟩ := source.exists_ending
      have hquote : source.quote ≠ '\n' := by
        intro heq
        have := source.quote_isQuote
        rw [heq] at this
        cases this
      have hline : '\n' ∉ importWord ++
          source.quote :: (source.specifier ++ source.quote :: front) := by
        have hword : '\n' ∉ importWord := by decide
        simp [hword, Ne.symm hquote, source.newline_notMem, hnewline]
      have htext : (Declaration.sideEffect source).chars ++ rest = importWord ++
          source.quote :: (source.specifier ++ source.quote :: front) ++ '\n' :: rest := by
        simp [Declaration.chars, Source.chars, hending]
      rw [htext, lineImports_append_newline hline]
      rfl

theorem lineImports_printed (declarations : List Declaration) :
    lineImports true (printed declarations) =
      declarations.filterMap Declaration.found? := by
  induction declarations with
  | nil =>
      rw [printed, List.flatMap_nil, lineImports_of_none rfl, lineImports.eq_def]
      rfl
  | cons declaration declarations ih =>
      have htext : printed (declaration :: declarations) =
          declaration.chars ++ printed declarations := List.flatMap_cons
      rw [htext, declaration.lineImports_append, ih, filterMap_cons_toList]

theorem ofList_eq_nil_iff {names : List String} : Names.ofList names = [] ↔ names = [] := by
  simp only [List.eq_nil_iff_forall_not_mem, Names.mem_ofList]

/-- The scanner takes a declaration for what it means. -/
theorem Declaration.bind_directive? (declaration : Declaration) :
    declaration.found?.bind LineImport.directive? = declaration.directive? := by
  cases declaration with
  | binding clause source =>
      have hnames := clause.clauseNames_append oneSpace
      rw [oneSpace_val] at hnames
      rw [found?, Option.bind_some, LineImport.directive?]
      simp only [hnames, Bool.false_eq_true, false_or, ofList_eq_nil_iff]
      rfl
  | typeOnly clause source => rfl
  | sideEffect source => rfl

/-- The extensions of the files that are read by a grammar. -/
def scriptExtensions : List String :=
  ["js", "mjs", "cjs", "jsx", "ts", "mts", "cts", "tsx"]

theorem ofPath?_eq_none {file : Path}
    (h : ∀ ext ∈ scriptExtensions, file.extension? ≠ some ext) :
    Script.Dialect.ofPath? file = none := by
  rw [Script.Dialect.ofPath?, Option.bind_eq_none_iff]
  intro ext hext
  have hother : ext ∉ scriptExtensions := fun hmem => h ext hmem hext
  simp only [scriptExtensions, List.mem_cons, List.not_mem_nil, or_false, not_or] at hother
  simp [Script.Dialect.ofExtension?, hother]

theorem Declaration.importWord_prefix (declaration : Declaration) :
    importWord <+: declaration.chars := by
  cases declaration <;> simp only [chars, List.append_assoc] <;>
    exact List.prefix_append _ _

/-- A text that is not even looked at has no imports. -/
theorem eq_nil_of_contains_eq_false {declarations : List Declaration}
    (h : Text.contains "import".toList (printed declarations) = false) :
    declarations = [] := by
  cases declarations with
  | nil => rfl
  | cons declaration declarations =>
      have hnone : Text.splitFirst "import".toList
          (printed (declaration :: declarations)) = none :=
        Option.isNone_iff_eq_none.mp (Option.isSome_eq_false_iff.mp h)
      have himport : "import".toList <+: importWord := ⟨[' '], rfl⟩
      have hprefix := (himport.trans declaration.importWord_prefix).trans
        (List.prefix_append declaration.chars (printed declarations))
      exact (Text.splitFirst_eq_none_iff.mp hnone hprefix.isInfix).elim

/-- A printed list of imports is read back as what it means, by the line scanner and by
the reader of all files that are no scripts. -/
theorem lineDirectives_printed (declarations : List Declaration) :
    lineDirectives (printed declarations) =
        declarations.filterMap Declaration.directive? ∧
      ∀ file : Path, (∀ ext ∈ scriptExtensions, file.extension? ≠ some ext) →
        read file (printed declarations) =
          (declarations.filterMap Declaration.directive?, []) := by
  have hlines : lineDirectives (printed declarations) =
      declarations.filterMap Declaration.directive? := by
    rw [lineDirectives, lineImports_printed, List.filterMap_filterMap]
    exact congrArg (declarations.filterMap ·) (funext Declaration.bind_directive?)
  refine ⟨hlines, fun file hfile => ?_⟩
  rw [read, ofPath?_eq_none hfile]
  split
  · rw [hlines]
  · rename_i hcontains
    obtain rfl := eq_nil_of_contains_eq_false (Bool.eq_false_iff.mpr hcontains)
    rfl

/-- Imports of names that look like words of an import. -/
def wordyImports : List Declaration :=
  let fromName := Identifier.of 'f' "rom" (by decide)
  let asName := Identifier.of 'a' "s" (by decide)
  let typedName := Identifier.of 't' "yped" (by decide)
  let xfromName := Identifier.of 'x' "from" (by decide)
  let newline : Blanks := ⟨['\n'], List.forall_mem_singleton.mpr rfl⟩
  let indented : Blanks := ⟨"\n  ".toList, Text.forall_mem_of_all (by decide)⟩
  let listed : Group :=
    .braces [(oneSpace, .renamed fromName asName), (indented, .typeOnly xfromName)]
      true newline
  [.binding (.both typedName listed) (.of '"' "a" ";\n" (by decide)),
    .typeOnly (.default asName) (.of '\'' "b" "\n" (by decide)),
    .sideEffect (.of '\'' "c" ";\r\n" (by decide)),
    .binding (.alone (.star xfromName)) (.of '\'' "d" "\n" (by decide)),
    .binding (.alone (.braces [(noBlanks, .typeOnly asName)] false noBlanks))
      (.of '\'' "e" "\n" (by decide))]

theorem lineDirectives_printed_wordy :
    printed wordyImports =
      ("import typed, \x7b from as as,\n  type xfrom,\n\x7d from \"a\";\n" ++
      "import type as from 'b'\nimport 'c';\r\nimport * as xfrom from 'd'\n" ++
        "import {type as} from 'e'\n").toList ∧
      (∀ ext ∈ scriptExtensions, (⟨"App.vue"⟩ : Path).extension? ≠ some ext) ∧
        read ⟨"App.vue"⟩ (printed wordyImports) =
          ([⟨"a", ["as", "typed"]⟩, ⟨"d", ["xfrom"]⟩], []) := by
  have hfile : ∀ ext ∈ scriptExtensions, (⟨"App.vue"⟩ : Path).extension? ≠ some ext := by
    decide +kernel
  refine ⟨?_, hfile, ?_⟩
  · rw [String.toList_append, String.toList_append]
    decide +kernel
  · rw [(lineDirectives_printed wordyImports).2 ⟨"App.vue"⟩ hfile]
    decide +kernel

end StylePrune.Import
