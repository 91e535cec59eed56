import Mathlib.Data.List.Count
import Mathlib.Data.List.Nodup
import StylePrune.Proofs.Literal.Removal

/-!
# Removed keys are gone

Removal against extraction: keys that a table lists are cut, and the text is
extracted anew.  No listed key is missed and no other key is lost, whatever the
text.  The others are exactly what is left, whichever keys are cut, if every key
is declared once and none uncovers another, and only then: a name that is
declared twice is listed once but survives its first cut, and where all listed
keys are cut, an uncovered one is left over.
-/

namespace StylePrune.StyleTable

open Literal

/-! ## First occurrences -/

theorem mem_firstOccurrences {x : String} {xs : List String} :
    x ∈ firstOccurrences xs ↔ x ∈ xs := by
  induction xs with
  | nil => rfl
  | cons y xs ih =>
      by_cases h : x = y
      · simp [firstOccurrences, h]
      · simp [firstOccurrences, h, ih]

theorem nodup_firstOccurrences (xs : List String) : (firstOccurrences xs).Nodup := by
  induction xs with
  | nil => exact List.nodup_nil
  | cons x xs ih =>
      rw [firstOccurrences, List.nodup_cons]
      exact ⟨by simp, ih.filter _⟩

theorem firstOccurrences_filter (p : String → Bool) (xs : List String) :
    firstOccurrences (xs.filter p) = (firstOccurrences xs).filter p := by
  induction xs with
  | nil => rfl
  | cons x xs ih =>
      by_cases h : p x = true
      · rw [List.filter_cons_of_pos h, firstOccurrences, firstOccurrences,
          List.filter_cons_of_pos h, ih, List.filter_comm]
      · rw [List.filter_cons_of_neg h, firstOccurrences, List.filter_cons_of_neg h, ih,
          List.filter_filter]
        refine List.filter_congr fun y _ => ?_
        by_cases hy : y = x
        · simp [hy, h]
        · simp [hy]

theorem erase_eq_filter {x : String} {xs : List String} (h : xs.count x ≤ 1) :
    xs.erase x = xs.filter (· != x) := by
  induction xs with
  | nil => rfl
  | cons y xs ih =>
      by_cases hy : y = x
      · subst hy
        have hnone : y ∉ xs := by
          rw [List.count_cons_self] at h
          exact List.count_eq_zero.mp (by omega)
        have hkeep : ∀ z ∈ xs, (z != y) = true := by
          intro z hz
          simpa using fun heq : z = y => hnone (heq ▸ hz)
        rw [List.erase_cons_head, List.filter_cons_of_neg (by simp),
          List.filter_eq_self.mpr hkeep]
      · rw [List.count_cons_of_ne hy] at h
        rw [List.erase_cons_tail (by simpa using hy),
          List.filter_cons_of_pos (by simpa using hy), ih h]

/-- Taking out names that occur once leaves the others. -/
theorem diff_eq_filter {names keys : List String} (hkeys : keys.Nodup)
    (h : ∀ key ∈ keys, names.count key = 1) :
    names.diff keys = names.filter (· ∉ keys) := by
  induction keys generalizing names with
  | nil => simp
  | cons key keys ih =>
      obtain ⟨hkey, hnodup⟩ := List.nodup_cons.mp hkeys
      have hcount : ∀ k ∈ keys, (names.erase key).count k = 1 := by
        intro k hk
        have hne : key ≠ k := fun heq => hkey (heq ▸ hk)
        rw [List.count_erase_of_ne hne.symm]
        exact h k (by simp [hk])
      rw [List.diff_cons, ih hnodup hcount, erase_eq_filter (h key (by simp)).le,
        List.filter_filter]
      refine List.filter_congr fun y _ => ?_
      by_cases hy : y = key <;> simp [hy]

/-! ## Names after a run of cuts -/

/-- Keys that are there, as often as they are listed, are all cut, and no other name
is lost. -/
theorem cutAll_of_subperm {marker text front : List Char} {body rest : List Lexeme}
    {ps : List (List Lexeme)} {keys : List String}
    (h : LaidOut marker text front body ps rest) (hmarker : marker.getLast? = some '{')
    (hkeys : keys.Subperm (namesOf ps)) :
    (cutAll marker text keys).missed = [] ∧ (cutAll marker text keys).removed = keys ∧
      ∃ body' ps', LaidOut marker (cutAll marker text keys).text front body' ps' rest ∧
        ((namesOf ps).diff keys).Sublist (namesOf ps') := by
  induction keys generalizing text body ps with
  | nil => exact ⟨rfl, rfl, body, ps, h, List.Sublist.refl _⟩
  | cons key keys ih =>
      cases hcut : cut? marker text key with
      | none => exact (h.cut?_eq_none_iff.mp hcut (hkeys.subset (by simp))).elim
      | some shorter =>
          obtain ⟨span, -, ⟨e⟩⟩ := h.exists_excision hmarker hcut
          have herase := hkeys.erase key
          rw [List.erase_cons_head] at herase
          obtain ⟨hmissed, hremoved, body', ps', hlaid, hsub⟩ :=
            ih e.laidOut (herase.trans e.erase_sublist.subperm)
          simp only [cutAll, hcut, List.diff_cons]
          exact ⟨hmissed, by rw [hremoved], body', ps', hlaid,
            e.erase_sublist.diff_right.trans hsub⟩

theorem length_diff_of_subperm {names keys : List String} (h : keys.Subperm names) :
    (names.diff keys).length + keys.length = names.length := by
  have hperm := List.subperm_append_diff_self_of_count_le fun x _ => h.count_le x
  rw [← hperm.length_eq, List.length_append, Nat.add_comm]

/-- Where an entry uncovers a member, a run that cuts all names leaves one. -/
theorem exists_cutAll_ne_nil {marker text front : List Char} {body rest : List Lexeme}
    {ps : List (List Lexeme)} {names keys : List String}
    (h : LaidOut marker text front body ps rest) (hmarker : marker.getLast? = some '{')
    (hclosed : rest ≠ []) (hkeys : keys.Perm (namesOf ps))
    (huncovers : ¬ps.IsChain (Covers names)) :
    ∃ body' ps', LaidOut marker (cutAll marker text keys).text front body' ps' rest ∧
      namesOf ps' ≠ [] := by
  induction keys generalizing text body ps with
  | nil =>
      refine (huncovers (List.Pairwise.isChain (List.pairwise_of_forall_mem_list ?_))).elim
      intro p hp next _ m hm
      have hname : m.key.name ∈ namesOf ps := by
        simp only [namesOf, entriesOf, List.map_map, List.mem_map, List.mem_filterMap]
        exact ⟨m, ⟨p, hp, hm⟩, rfl⟩
      rw [List.nil_perm.mp hkeys] at hname
      cases hname
  | cons key keys ih =>
      obtain ⟨hkey, hperm⟩ := List.cons_perm_iff_perm_erase.mp hkeys
      cases hcut : cut? marker text key with
      | none => exact (h.cut?_eq_none_iff.mp hcut hkey).elim
      | some shorter =>
          simp only [cutAll, hcut]
          obtain ⟨span, -, ⟨e⟩⟩ := h.exists_excision hmarker hcut
          by_cases huncovered : ∃ next ∈ e.after.head?, Uncovers e.piece next
          · -- as many names as before are left, one more than keys
            obtain ⟨next, hnext, hpiece⟩ := huncovered
            have hleft : keys.Subperm (namesOf (e.before ++ e.new)) :=
              hperm.subperm.trans e.erase_sublist.subperm
            obtain ⟨-, -, body', ps', hlaid, hsub⟩ :=
              cutAll_of_subperm e.laidOut hmarker hleft
            have hlength := length_diff_of_subperm hleft
            rw [e.length_namesOf hnext hpiece, ← hkeys.length_eq,
              List.length_cons] at hlength
            refine ⟨body', ps', hlaid, fun hnil => ?_⟩
            rw [hnil, List.sublist_nil] at hsub
            rw [hsub, List.length_nil] at hlength
            omega
          · have hcovers : ∀ next ∈ e.after.head?, ¬Uncovers e.piece next :=
              fun next hnext hpiece => huncovered ⟨next, hnext, hpiece⟩
            rw [← namesOf_eq_erase (e.entriesOf_eq hclosed hcovers)] at hperm
            rw [← e.isChain_iff h hclosed hcovers] at huncovers
            exact ih e.laidOut hperm huncovers

theorem map_allot_eq_diff {α : Type} (nameOf : α → String) (keys : List String)
    (xs : List α) :
    (allot nameOf (fun n => keys.count n) [] xs).2.map nameOf =
      (xs.map nameOf).diff keys := by
  induction keys generalizing xs with
  | nil => simp only [List.count_nil, allot_zero, List.diff_nil]
  | cons key keys ih =>
      have hcount : (fun n => (key :: keys).count n) =
          fun n => keys.count n + if key == n then 1 else 0 :=
        funext fun n => List.count_cons
      rw [hcount, allot_eraseP (by simp), ih, List.diff_cons, map_eraseP_name]

/-! ## Extraction after removal -/

theorem extract_keys {marker text front : List Char} {body rest : List Lexeme}
    {ps : List (List Lexeme)} (h : LaidOut marker text front body ps rest) {file : Path}
    {table : StyleTable} (htable : (extract file marker text).1.table = some table) :
    table.keys = firstOccurrences (namesOf ps) := by
  rw [h.extract_eq, h.map_name_keys] at htable
  obtain rfl := Option.some.inj htable
  rfl

/-- No entry with one of the names uncovers a member of the text's literal. -/
def NoneUncovered (marker text : List Char) (names : List String) : Prop :=
  ∀ front body ps rest, LaidOut marker text front body ps rest → ps.IsChain (Covers names)

theorem noneUncovered_of_ascii {marker text : List Char} {names : List String}
    (h : ∀ c ∈ text, Text.isBlank c = true → Text.isAsciiBlank c = true) :
    NoneUncovered marker text names :=
  fun _ _ _ _ hlaid => hlaid.isChain_of_ascii h names

/-- The keys of the table that is extracted after some keys have been cut. -/
def keysAfter? (file : Path) (marker text : List Char) (keys : List String) :
    Option (List String) :=
  (extract file marker (cutAll marker text keys).text).1.table.map StyleTable.keys

theorem keysAfter?_eq {marker text front : List Char} {body rest : List Lexeme}
    {ps : List (List Lexeme)} {keys : List String}
    (h : LaidOut marker (cutAll marker text keys).text front body ps rest) (file : Path) :
    keysAfter? file marker text keys = some (firstOccurrences (namesOf ps)) := by
  rw [keysAfter?, h.extract_eq, h.map_name_keys]
  rfl

section Removal

variable {file : Path} {marker text front : List Char} {body rest : List Lexeme}
  {ps : List (List Lexeme)} {keys : List String}

theorem subperm_namesOf (h : keys.Sublist (firstOccurrences (namesOf ps))) :
    keys.Subperm (namesOf ps) := by
  refine List.subperm_of_subset (h.nodup (nodup_firstOccurrences _)) fun key hkey => ?_
  exact mem_firstOccurrences.mp (h.subset hkey)

theorem count_eq_one_of_keysAfter? (h : LaidOut marker text front body ps rest)
    (hmarker : marker.getLast? = some '{')
    (hkeys : keys.Sublist (firstOccurrences (namesOf ps)))
    (hafter : keysAfter? file marker text keys =
      some ((firstOccurrences (namesOf ps)).filter (· ∉ keys))) :
    ∀ key ∈ keys, (namesOf ps).count key = 1 := by
  intro key hkey
  have hsubperm := subperm_namesOf hkeys
  obtain ⟨-, -, body', ps', hlaid', hsub⟩ := cutAll_of_subperm h hmarker hsubperm
  rw [keysAfter?_eq hlaid', Option.some.injEq] at hafter
  have hgone : key ∉ namesOf ps' := by
    rw [← mem_firstOccurrences, hafter]
    simp [hkey]
  have hzero : ((namesOf ps).diff keys).count key = 0 :=
    List.count_eq_zero.mpr fun hdiff => hgone (hsub.subset hdiff)
  have hone : keys.count key = 1 :=
    List.count_eq_one_of_mem (hkeys.nodup (nodup_firstOccurrences _)) hkey
  have hpos := List.count_pos_iff.mpr (hsubperm.subset hkey)
  rw [List.count_diff, hone] at hzero
  omega

theorem keysAfter?_of_count_eq_one (h : Tidy keys marker text front body ps rest)
    (hmarker : marker.getLast? = some '{') (hkeys : keys.Nodup)
    (honce : ∀ key ∈ keys, (namesOf ps).count key = 1) :
    keysAfter? file marker text keys =
      some ((firstOccurrences (namesOf ps)).filter (· ∉ keys)) := by
  obtain ⟨body', ps', htidy', hentries, -⟩ := h.exists_of_cutAll hmarker fun _ hkey => hkey
  have hnames : namesOf ps' = (namesOf ps).diff keys := by
    rw [namesOf, hentries, map_allot_eq_diff, namesOf]
  rw [keysAfter?_eq htidy'.toLaidOut, hnames, diff_eq_filter hkeys honce,
    firstOccurrences_filter]

/-- A table can be emptied only if nothing is uncovered. -/
theorem isChain_of_keysAfter? (h : LaidOut marker text front body ps rest)
    (hmarker : marker.getLast? = some '{') (hclosed : rest ≠ [])
    (hnodup : (namesOf ps).Nodup)
    (hafter : keysAfter? file marker text (firstOccurrences (namesOf ps)) = some [])
    (names : List String) : ps.IsChain (Covers names) := by
  by_contra huncovers
  have hperm : (firstOccurrences (namesOf ps)).Perm (namesOf ps) :=
    (List.perm_ext_iff_of_nodup (nodup_firstOccurrences _) hnodup).mpr
      fun _ => mem_firstOccurrences
  obtain ⟨body', ps', hlaid', hne⟩ := exists_cutAll_ne_nil h hmarker hclosed hperm huncovers
  rw [keysAfter?_eq hlaid', Option.some.injEq] at hafter
  obtain ⟨name, hname⟩ := List.exists_mem_of_ne_nil _ hne
  rw [← mem_firstOccurrences, hafter] at hname
  cases hname

theorem NoneUncovered.mono {names : List String} (h : NoneUncovered marker text names)
    (hkeys : ∀ key ∈ keys, key ∈ names) : NoneUncovered marker text keys :=
  fun front body ps rest hlaid => (h front body ps rest hlaid).imp
    fun _ _ hcovers m hm hname => hcovers m hm (hkeys _ hname)

/-- Removal is exact for all keys of a closed literal together: each is declared once,
and none uncovers another. -/
theorem forall_keysAfter?_iff (h : LaidOut marker text front body ps rest)
    (hmarker : marker.getLast? = some '{') (hclosed : rest ≠ []) :
    (∀ keys, keys.Sublist (firstOccurrences (namesOf ps)) →
      keysAfter? file marker text keys =
        some ((firstOccurrences (namesOf ps)).filter (· ∉ keys))) ↔
      (namesOf ps).Nodup ∧ NoneUncovered marker text (namesOf ps) := by
  constructor
  · intro hexact
    have hall := hexact _ (List.Sublist.refl _)
    have hnodup : (namesOf ps).Nodup := by
      refine List.nodup_iff_count_eq_one.mpr fun key hkey => ?_
      exact count_eq_one_of_keysAfter? h hmarker (List.Sublist.refl _) hall key
        (mem_firstOccurrences.mpr hkey)
    refine ⟨hnodup, fun front' body' ps' rest' h' => ?_⟩
    have hsame := Option.some.inj (h.find?_eq.symm.trans h'.find?_eq)
    have hnames : namesOf ps = namesOf ps' := by
      rw [← h.map_name_keys, hsame, h'.map_name_keys]
    have hclosed' : rest' ≠ [] := by
      rintro rfl
      have hterminated := congrArg StyleLiteral.terminated hsame
      simp [literalOf, hclosed] at hterminated
    have hempty : (firstOccurrences (namesOf ps)).filter
        (· ∉ firstOccurrences (namesOf ps)) = [] := by
      simp
    rw [hempty, hnames] at hall
    exact isChain_of_keysAfter? h' hmarker hclosed' (hnames ▸ hnodup) hall _
  · rintro ⟨hnodup, hcovers⟩ keys hkeys
    have hmem : ∀ key ∈ keys, key ∈ namesOf ps :=
      fun key hkey => (subperm_namesOf hkeys).subset hkey
    refine keysAfter?_of_count_eq_one
      ⟨h, hclosed, hcovers.mono hmem front body ps rest h⟩ hmarker
      (hkeys.nodup (nodup_firstOccurrences _)) fun key hkey => ?_
    exact List.nodup_iff_count_eq_one.mp hnodup key (hmem key hkey)

end Removal

/-- Cutting keys that a table lists misses none of them and loses no other key.  A fresh
table has exactly the other keys, whichever keys are cut, if and only if every key is
declared once and no entry uncovers another. -/
theorem extract_cutAll {file : Path} {marker text : List Char} {literal : StyleLiteral}
    {table : StyleTable} (hmarker : marker.getLast? = some '{')
    (hfind : find? marker text = some literal) (hclosed : literal.terminated = true)
    (htable : (extract file marker text).1.table = some table) :
    (∀ keys, keys.Sublist table.keys →
      (cutAll marker text keys).missed = [] ∧ (cutAll marker text keys).removed = keys ∧
        ∃ left, keysAfter? file marker text keys = some left ∧
          (∀ key ∈ table.keys, key ∉ keys → key ∈ left) ∧
          (left = table.keys.filter (· ∉ keys) →
            ∀ key ∈ keys, (literal.keys.map KeySpan.name).count key = 1) ∧
          ((∀ key ∈ keys, (literal.keys.map KeySpan.name).count key = 1) →
            NoneUncovered marker text keys → left = table.keys.filter (· ∉ keys))) ∧
      ((∀ keys, keys.Sublist table.keys →
          keysAfter? file marker text keys = some (table.keys.filter (· ∉ keys))) ↔
        (literal.keys.map KeySpan.name).Nodup ∧
          NoneUncovered marker text (literal.keys.map KeySpan.name)) := by
  obtain ⟨front, body, ps, rest, hlaid, rfl⟩ := find?_eq_some_iff.mp hfind
  have hrest : rest ≠ [] := by
    rintro rfl
    cases hclosed
  rw [extract_keys hlaid htable, hlaid.map_name_keys]
  constructor
  · intro keys hkeys
    have hsubperm := subperm_namesOf hkeys
    obtain ⟨hmissed, hremoved, body', ps', hlaid', hsub⟩ :=
      cutAll_of_subperm hlaid hmarker hsubperm
    refine ⟨hmissed, hremoved, _, keysAfter?_eq hlaid' file, ?_, ?_, ?_⟩
    · intro key hkey hout
      rw [mem_firstOccurrences] at hkey ⊢
      exact hsub.subset (List.mem_diff_of_mem hkey hout)
    · intro hexact
      have hafter := keysAfter?_eq hlaid' file
      rw [hexact] at hafter
      exact count_eq_one_of_keysAfter? hlaid hmarker hkeys hafter
    · intro honce hcovers
      have htidy : Tidy keys marker text front body ps rest :=
        ⟨hlaid, hrest, hcovers front body ps rest hlaid⟩
      have hnodup := hkeys.nodup (nodup_firstOccurrences _)
      have hexact : keysAfter? file marker text keys = _ :=
        keysAfter?_of_count_eq_one htidy hmarker hnodup honce
      rwa [keysAfter?_eq hlaid', Option.some.injEq] at hexact
  · exact forall_keysAfter?_iff hlaid hmarker hrest

/-- Of three keys two are cut, and one is left. -/
theorem extract_cutAll_two :
    let text := "({ a: {}, b: {}, c: {} })".toList
    let cut := cutAll ['(', '{'] text ["a", "c"]
    cut.missed = [] ∧ ∃ table,
      (extract ⟨"s.ts"⟩ ['(', '{'] cut.text).1.table = some table ∧ table.keys = ["b"] := by
  intro text cut
  have hread : find? ['(', '{'] text =
      some ⟨0, 25, [⟨"a", 3, 8, 8⟩, ⟨"b", 10, 15, 15⟩, ⟨"c", 17, 22, 22⟩], true⟩ := by
    decide +kernel
  have htable : (extract ⟨"s.ts"⟩ ['(', '{'] text).1.table =
      some ⟨⟨"s.ts"⟩, ["a", "b", "c"], none⟩ := by
    decide +kernel
  have hkeys : ["a", "c"].Sublist ["a", "b", "c"] := by decide
  obtain ⟨hlisted, hexact⟩ := extract_cutAll (by decide +kernel) hread rfl htable
  have hascii : NoneUncovered ['(', '{'] text ["a", "b", "c"] :=
    noneUncovered_of_ascii (isAsciiBlank_of_all (by decide +kernel))
  have hleft := hexact.mpr ⟨by decide, hascii⟩ ["a", "c"] hkeys
  exact ⟨(hlisted ["a", "c"] hkeys).1, Option.map_eq_some_iff.mp hleft⟩

/-- A key declared twice outlives its removal, and a key behind a no-break space comes up
with the removal of the key in front. -/
theorem extract_cutAll_not_exact :
    let twice := "({ a: {}, a: {} })".toList
    let hidden := "(\x7b a: {},\u00a0\n b: {} \x7d)".toList
    let keys := fun text => (extract ⟨"s.ts"⟩ ['(', '{'] text).1.table.map StyleTable.keys
    (keys twice = some ["a"] ∧ keys (cutAll ['(', '{'] twice ["a"]).text = some ["a"]) ∧
      keys hidden = some ["a"] ∧ keys (cutAll ['(', '{'] hidden ["a"]).text =
        some ["b"] := by
  decide +kernel

end StylePrune.StyleTable
