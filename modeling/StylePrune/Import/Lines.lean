import StylePrune.Import.Directive

/-!
# The line scanner

Finds imports in a text that no grammar has read. An import begins at the start of a
line, behind blanks, with the word `import`; its clause runs up to the first `from` that
a quoted specifier follows, and holds no quote and no semicolon. The search goes on
behind each import found.
-/

namespace StylePrune.Import

/-- A quote of either kind. -/
def isQuote (c : Char) : Bool :=
  c == '\'' || c == '"'

/-- A specifier between quotes at the start of a text, and what follows; the quotes may
differ. -/
def specifier? (text : List Char) : Option (List Char × List Char) :=
  match Text.trimStart text with
  | c :: rest =>
    let inside := rest.takeWhile (!isQuote ·)
    match rest.dropWhile (!isQuote ·) with
    | _ :: rest => if isQuote c ∧ inside ≠ [] then some (inside, rest) else none
    | [] => none
  | [] => none

/-- The clause in front of the first `from` with a specifier, the specifier, and what
follows. -/
def clause? : List Char → Option (List Char × List Char × List Char)
  | [] => none
  | c :: rest =>
    match ("from".toList.isPrefixOf? (c :: rest)).bind specifier? with
    | some (specifier, rest) => some ([], specifier, rest)
    | none =>
      if isQuote c ∨ c = ';' then
        none
      else
        (clause? rest).map fun (clause, found) => (c :: clause, found)

/-- A word at the start of a text with white space behind it; the text behind both. -/
def keyword? (word : String) (text : List Char) : Option (List Char) :=
  match word.toList.isPrefixOf? text with
  | some (c :: rest) => if Text.isBlank c then some (Text.trimStart rest) else none
  | _ => none

/-- An import as the line scanner sees it. -/
structure LineImport where
  /-- Whether it is an `import type`. -/
  typeOnly : Bool
  clause : List Char
  specifier : List Char
deriving DecidableEq, Repr

/-- The import at the start of a line, and the text behind it. -/
def lineImport? (line : List Char) : Option (LineImport × List Char) := do
  let rest ← keyword? "import" (line.dropWhile Text.isTab)
  match keyword? "type" rest with
  | some inner =>
    let (clause, specifier, rest) ← clause? inner
    return (⟨true, clause, specifier⟩, rest)
  | none =>
    let (clause, specifier, rest) ← clause? rest
    return (⟨false, clause, specifier⟩, rest)

/-- The directive of an import that binds a name as a value. -/
def LineImport.directive? (found : LineImport) : Option Directive :=
  let names := Directive.clauseNames found.clause
  if found.typeOnly ∨ names = [] then none else some ⟨String.ofList found.specifier, names⟩

theorem length_specifier?_lt {text inside rest : List Char}
    (h : specifier? text = some (inside, rest)) :
    rest.length < text.length := by
  unfold specifier? at h
  have htrim : (Text.trimStart text).length ≤ text.length :=
    (List.dropWhile_suffix _).length_le
  split at h
  · rename_i c tail hc
    have htail := (List.dropWhile_suffix (!isQuote ·) (l := tail)).length_le
    split at h
    · rename_i q last hq
      dsimp only at h
      split at h
      · obtain ⟨-, rfl⟩ := Prod.mk.inj (Option.some.inj h)
        rw [hq] at htail
        rw [hc] at htrim
        simp only [List.length_cons] at htail htrim
        omega
      · simp at h
    · simp at h
  · simp at h

theorem length_clause?_lt {text clause specifier rest : List Char}
    (h : clause? text = some (clause, specifier, rest)) : rest.length < text.length := by
  fun_induction clause? text generalizing clause with
  | case1 => simp at h
  | case2 c cs s r hs =>
      simp only [Option.some.injEq, Prod.mk.injEq] at h
      obtain ⟨-, rfl, rfl⟩ := h
      obtain ⟨tail, hp, hs⟩ := Option.bind_eq_some_iff.mp hs
      have hlen := congrArg List.length (Text.eq_append_of_isPrefixOf? hp)
      have := length_specifier?_lt hs
      simp only [List.length_append] at hlen
      omega
  | case3 => simp at h
  | case4 c cs hs hq ih =>
      obtain ⟨⟨cl, found⟩, hc, he⟩ := Option.map_eq_some_iff.mp h
      simp only [Prod.mk.injEq] at he
      obtain ⟨-, rfl⟩ := he
      exact Nat.lt_succ_of_lt (ih hc)

theorem length_keyword?_le {word : String} {text rest : List Char}
    (h : keyword? word text = some rest) :
    rest.length ≤ text.length := by
  unfold keyword? at h
  split at h
  · rename_i c tail hp
    have hlen := congrArg List.length (Text.eq_append_of_isPrefixOf? hp)
    have htrim : (Text.trimStart tail).length ≤ tail.length :=
      (List.dropWhile_suffix _).length_le
    split at h
    · simp only [Option.some.injEq] at h
      subst h
      simp only [List.length_append, List.length_cons] at hlen
      omega
    · simp at h
  · simp at h

theorem length_lineImport?_lt {line rest : List Char} {found : LineImport}
    (h : lineImport? line = some (found, rest)) : rest.length < line.length := by
  unfold lineImport? at h
  obtain ⟨tail, hk, h⟩ := Option.bind_eq_some_iff.mp h
  have hblank := (List.dropWhile_suffix Text.isTab (l := line)).length_le
  have hkey := length_keyword?_le hk
  split at h
  · rename_i inner hi
    have htype := length_keyword?_le hi
    obtain ⟨⟨c, s, r⟩, hc, h⟩ := Option.bind_eq_some_iff.mp h
    have := length_clause?_lt hc
    simp only [pure, Option.some.injEq, Prod.mk.injEq] at h
    obtain ⟨-, rfl⟩ := h
    omega
  · obtain ⟨⟨c, s, r⟩, hc, h⟩ := Option.bind_eq_some_iff.mp h
    have := length_clause?_lt hc
    simp only [pure, Option.some.injEq, Prod.mk.injEq] at h
    obtain ⟨-, rfl⟩ := h
    omega

/-- The imports of a text, with the text standing at the start of a line or behind an
import. -/
def lineImports (atLineStart : Bool) (text : List Char) : List LineImport :=
  if atLineStart then
    match h : lineImport? text with
    | some (found, rest) =>
      have := length_lineImport?_lt h
      found :: lineImports false rest
    | none => lineImports false text
  else
    match text with
    | [] => []
    | c :: rest => lineImports (c == '\n') rest
termination_by (text.length, atLineStart.toNat)
decreasing_by
  all_goals simp_all [Prod.lex_def]

/-- The directives that the line scanner finds. -/
def lineDirectives (text : List Char) : List Directive :=
  (lineImports true text).filterMap LineImport.directive?

end StylePrune.Import
