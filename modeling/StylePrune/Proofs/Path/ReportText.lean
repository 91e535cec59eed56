import StylePrune.Proofs.Path.Location

/-!
# Paths in reports

A report names a file by its path from the root folder if it lies below it, and by
its whole path otherwise.  Backslashes are written as slashes.  The name leads back to
the file if and only if there was no backslash to write (`absolutize_reportText_iff`).
-/

namespace StylePrune.Path

open Component

/-! ## The text behind a folder -/

theorem componentsOfPieces_cons_hollow {piece : List Char} (h : ¬isSolid piece = true)
    (pieces : List (List Char)) :
    componentsOfPieces (piece :: pieces) = componentsOfPieces pieces := by
  have hnone : ofPiece? piece = none := by simpa [isSolid] using h
  exact List.filterMap_cons_none hnone

theorem componentsOfPieces_dropWhile (pieces : List (List Char)) :
    componentsOfPieces (pieces.dropWhile (!isSolid ·)) = componentsOfPieces pieces := by
  induction pieces with
  | nil => rfl
  | cons piece pieces ih =>
      by_cases hsolid : isSolid piece = true
      · rw [List.dropWhile_cons_of_neg (by simp [hsolid])]
      · rw [List.dropWhile_cons_of_pos (by simp [hsolid]), ih,
          componentsOfPieces_cons_hollow hsolid]

theorem componentsOfPieces_dropHollowEnd (pieces : List (List Char)) :
    componentsOfPieces (dropHollowEnd pieces) = componentsOfPieces pieces := by
  have hreverse : ∀ pieces : List (List Char),
      componentsOfPieces pieces.reverse = (componentsOfPieces pieces).reverse :=
    fun _ => List.filterMap_reverse
  rw [dropHollowEnd, hreverse, componentsOfPieces_dropWhile, hreverse, List.reverse_reverse]

theorem componentsOfPieces_dropSolid (n : Nat) (pieces : List (List Char)) :
    componentsOfPieces (dropSolid n pieces) = (componentsOfPieces pieces).drop n := by
  induction pieces generalizing n with
  | nil => cases n <;> simp [dropSolid, componentsOfPieces]
  | cons piece pieces ih =>
      cases n with
      | zero => rfl
      | succ n =>
          by_cases hsolid : isSolid piece = true
          · obtain ⟨c, hc⟩ := Option.isSome_iff_exists.mp hsolid
            rw [dropSolid, if_pos hsolid, ih, componentsOfPieces, componentsOfPieces,
              List.filterMap_cons_some hc, List.drop_succ_cons]
          · rw [dropSolid, if_neg hsolid, ih, componentsOfPieces_cons_hollow hsolid]

theorem isSuffix_dropSolid (n : Nat) (pieces : List (List Char)) :
    dropSolid n pieces <:+ pieces := by
  induction pieces generalizing n with
  | nil => cases n <;> exact List.suffix_refl _
  | cons piece pieces ih =>
      cases n with
      | zero => exact List.suffix_refl _
      | succ n => exact (ih _).trans (List.suffix_cons _ _)

theorem isPrefix_dropHollowEnd (pieces : List (List Char)) :
    dropHollowEnd pieces <+: pieces := by
  rw [← List.reverse_suffix, dropHollowEnd, List.reverse_reverse]
  exact List.dropWhile_suffix _

/-- The pieces that are written of a path when its first components are left out. -/
def piecesAfter (p : Path) (n : Nat) : List (List Char) :=
  dropHollowEnd ((dropSolid n p.body).dropWhile (!isSolid ·))

theorem textAfter_eq {p : Path} (h : p.isAbsolute = true) (n : Nat) :
    (p.textAfter (n + 1)).toList = ['/'].intercalate (p.piecesAfter n) := by
  obtain ⟨rest, hrest⟩ := isAbsolute_iff.mp h
  unfold textAfter
  rw [(lead?_of_absolute hrest).1]
  simp [String.toList_intercalate, piecesAfter]

theorem componentsOfPieces_piecesAfter {p : Path} (h : p.isAbsolute = true) (n : Nat) :
    componentsOfPieces (p.piecesAfter n) = p.components.drop (n + 1) := by
  obtain ⟨rest, hrest⟩ := isAbsolute_iff.mp h
  rw [piecesAfter, componentsOfPieces_dropHollowEnd, componentsOfPieces_dropWhile,
    componentsOfPieces_dropSolid, components_of_absolute hrest, (lead?_of_absolute hrest).2]
  rfl

theorem noSlash_of_mem_piecesAfter {p : Path} (h : p.isAbsolute = true) {n : Nat}
    {piece : List Char} (hpiece : piece ∈ p.piecesAfter n) : '/' ∉ piece := by
  obtain ⟨rest, hrest⟩ := isAbsolute_iff.mp h
  have hbody : piece ∈ p.body :=
    (isSuffix_dropSolid n p.body).subset ((List.dropWhile_suffix _).subset
      ((isPrefix_dropHollowEnd _).subset hpiece))
  rw [(lead?_of_absolute hrest).2] at hbody
  exact noSlash_of_mem_splitOn hbody

theorem head?_piecesAfter (p : Path) (n : Nat) : (p.piecesAfter n).head? ≠ some [] := by
  intro hhead
  obtain ⟨pieces, hpieces⟩ := List.head?_eq_some_iff.mp hhead
  obtain ⟨more, hmore⟩ :=
    isPrefix_dropHollowEnd ((dropSolid n p.body).dropWhile (!isSolid ·))
  have hfirst : ((dropSolid n p.body).dropWhile (!isSolid ·)).head? = some [] := by
    rw [← hmore, show dropHollowEnd _ = [] :: pieces from hpieces]
    rfl
  have hsolid := List.head?_dropWhile_not (!isSolid ·) (dropSolid n p.body)
  rw [hfirst] at hsolid
  exact absurd hsolid (by decide)

/-- The text behind the first components of an absolute path is a relative path with the
other components. -/
theorem textAfter_spec {p : Path} (h : p.isAbsolute = true) (n : Nat) :
    (⟨p.textAfter (n + 1)⟩ : Path).isAbsolute = false ∧
      componentsOfPieces (⟨p.textAfter (n + 1)⟩ : Path).pieces =
        p.components.drop (n + 1) := by
  rw [← componentsOfPieces_piecesAfter h, pieces_eq, isAbsolute, decide_eq_false_iff_not,
    textAfter_eq h]
  have hslash : ∀ piece ∈ p.piecesAfter n, '/' ∉ piece :=
    fun piece hpiece => noSlash_of_mem_piecesAfter h hpiece
  have hhead := head?_piecesAfter p n
  cases hpieces : p.piecesAfter n with
  | nil => exact ⟨by simp, rfl⟩
  | cons piece pieces =>
      rw [hpieces] at hslash hhead
      refine ⟨fun hfirst => ?_, by rw [List.splitOn_intercalate '/' hslash (by simp)]⟩
      obtain ⟨c, cs, rfl⟩ := List.exists_cons_of_ne_nil
        fun hnil : piece = [] => hhead (congrArg some hnil)
      have hc : c = '/' := by cases pieces <;> simpa using hfirst
      exact hslash _ List.mem_cons_self (by simp [hc])

/-! ## Backslashes -/

theorem mem_iff_exists_mem_splitOn {d : Char} (hd : d ≠ '/') (text : List Char) :
    d ∈ text ↔ ∃ piece ∈ text.splitOn '/', d ∈ piece := by
  induction text with
  | nil => simp
  | cons c text ih =>
      rw [List.mem_cons, ih, List.splitOn_cons_eq_if_modifyHead]
      split
      · rename_i hc
        have hne : d ≠ c := fun heq => hd (heq.trans (by simpa using hc))
        simp [hne]
      · obtain ⟨first, rest, hpieces⟩ :=
          List.exists_cons_of_ne_nil (List.splitOn_ne_nil '/' text)
        simp [hpieces, or_assoc]

theorem backslash_mem_text_iff {piece : List Char} {c : Component}
    (h : ofPiece? piece = some c) : '\\' ∈ c.text.toList ↔ '\\' ∈ piece := by
  unfold ofPiece? at h
  split at h
  · cases h
  · split at h
    · rename_i hup
      cases h
      rw [hup]
      decide
    · cases h
      simp [Component.text]

/-- A backslash in a path stands in one of its components. -/
theorem backslash_mem_iff (p : Path) :
    '\\' ∈ p.text.toList ↔ ∃ c ∈ componentsOfPieces p.pieces, '\\' ∈ c.text.toList := by
  rw [mem_iff_exists_mem_splitOn (by decide), ← pieces_eq]
  constructor
  · rintro ⟨piece, hpiece, hmem⟩
    cases hc : ofPiece? piece with
    | none =>
        have hhollow : piece = [] ∨ piece = ['.'] := by
          by_contra hne
          rw [ofPiece?, if_neg hne] at hc
          split at hc <;> cases hc
        rcases hhollow with rfl | rfl <;> simp at hmem
    | some c =>
        exact ⟨c, List.mem_filterMap.mpr ⟨piece, hpiece, hc⟩,
          (backslash_mem_text_iff hc).mpr hmem⟩
  · rintro ⟨c, hc, hmem⟩
    obtain ⟨piece, hpiece, hsome⟩ := List.mem_filterMap.mp hc
    exact ⟨piece, hpiece, (backslash_mem_text_iff hsome).mp hmem⟩

theorem backslash_notMem_reportText (root p : Path) :
    '\\' ∉ (reportText root p).toList := by
  rw [reportText, String.toList_map]
  intro hmem
  obtain ⟨c, -, hc⟩ := List.mem_map.mp hmem
  split at hc
  · cases hc
  · contradiction

/-! ## What normalizing keeps -/

theorem pushComponent_cases (front : List Component) (c : Component) :
    pushComponent front c = front ∨ pushComponent front c = front.tail ∨
      pushComponent front c = c :: front := by
  cases c <;> rcases front with _ | ⟨_ | _ | _ | _, _⟩ <;> simp [pushComponent]

/-- Pushing components leaves none but them where nothing stood before. -/
theorem mem_drop_foldl_pushComponent {front more : List Component} {n : Nat} {c : Component}
    (h : c ∈ (more.foldl pushComponent front).reverse.drop n) :
    c ∈ front.reverse.drop n ∨ c ∈ more := by
  induction more generalizing front with
  | nil => exact Or.inl h
  | cons d more ih =>
      rw [List.foldl_cons] at h
      rcases ih h with hfront | hmore
      · rcases pushComponent_cases front d with heq | heq | heq
        · rw [heq] at hfront
          exact Or.inl hfront
        · rw [heq, ← List.dropLast_reverse, List.dropLast_eq_take, List.drop_take] at hfront
          exact Or.inl (List.mem_of_mem_take hfront)
        · rw [heq, List.reverse_cons, List.drop_append, List.mem_append] at hfront
          refine hfront.imp_right fun hmem => ?_
          rw [List.mem_singleton.mp (List.mem_of_mem_drop hmem)]
          exact List.mem_cons_self
      · exact Or.inr (List.mem_cons_of_mem _ hmore)

theorem mem_of_mem_normalComponents {cs : List Component} {c : Component}
    (h : c ∈ normalComponents cs) : c ∈ cs := by
  have hdrop : c ∈ (cs.foldl pushComponent []).reverse.drop 0 := h
  exact (mem_drop_foldl_pushComponent hdrop).resolve_left List.not_mem_nil

/-- Behind a normal front, normalizing leaves nothing but what followed it. -/
theorem mem_of_mem_drop_normalComponents {front more : List Component} {c : Component}
    (hfront : normalComponents front = front)
    (h : c ∈ (normalComponents (front ++ more)).drop front.length) : c ∈ more := by
  have hfold : front.foldl pushComponent [] = front.reverse := List.reverse_eq_iff.mp hfront
  rw [normalComponents, List.foldl_append, hfold] at h
  refine (mem_drop_foldl_pushComponent h).resolve_left ?_
  simp

/-! ## The way back -/

/-- The paths that begin at the root and that normalizing leaves the same, in whatever way
they are written. -/
structure IsSettled (p : Path) : Prop where
  absolute : p.isAbsolute = true
  fixed : p.normalize.same p = true

/-- The components that a report writes of a path: those behind the root folder if the
path lies below it, and all of them otherwise. -/
def reported (root p : Path) : List Component :=
  if p.startsWith root then p.components.drop root.components.length else p.components

/-- A report writes no backslash of a path as a slash. -/
def ReportsPlainly (root p : Path) : Prop :=
  ∀ c ∈ reported root p, '\\' ∉ c.text.toList

/-- What a report writes of a path before backslashes become slashes. -/
def shortText (root p : Path) : String :=
  (p.relativeTo? root).getD p.text

theorem same_iff_components {p q : Path} : p.same q = true ↔ p.components = q.components :=
  decide_eq_true_iff

theorem IsSettled.components {p : Path} (h : p.IsSettled) :
    normalComponents p.components = p.components := by
  rw [← components_normalize h.absolute]
  exact same_iff_components.mp h.fixed

theorem IsNormal.isSettled {p : Path} (h : p.IsNormal) : p.IsSettled :=
  ⟨h.absolute, by rw [h.fixed, same_iff_components]⟩

theorem mem_of_mem_reported {root p : Path} {c : Component} (h : c ∈ reported root p) :
    c ∈ p.components := by
  unfold reported at h
  split at h
  · exact List.mem_of_mem_drop h
  · exact h

theorem shortText_of_startsWith {root p : Path} (hroot : root.isAbsolute = true)
    (hp : p.isAbsolute = true) (h : p.startsWith root = true) :
    (⟨shortText root p⟩ : Path).isAbsolute = false ∧
      componentsOfPieces (⟨shortText root p⟩ : Path).pieces = reported root p := by
  have hlength : root.components.length = (componentsOfPieces root.pieces).length + 1 := by
    rw [components_of_isAbsolute hroot, List.length_cons]
  rw [shortText, relativeTo?, if_pos h, Option.getD_some, reported, if_pos h, hlength]
  exact textAfter_spec hp _

theorem shortText_of_not_startsWith {root p : Path} (h : ¬p.startsWith root = true) :
    shortText root p = p.text := by
  rw [shortText, relativeTo?, if_neg h, Option.getD_none]

/-- A path is found again by what a report writes of it, as long as that is not changed. -/
theorem same_absolutize_shortText {root p : Path} (hroot : root.isAbsolute = true)
    (hp : p.IsSettled) : (absolutize root ⟨shortText root p⟩).same p = true := by
  by_cases h : p.startsWith root = true
  · obtain ⟨hrelative, hpieces⟩ := shortText_of_startsWith hroot hp.absolute h
    obtain ⟨back, hback⟩ := List.isPrefixOf_iff_prefix.mp h
    have hjoin : (root.join ⟨shortText root p⟩).components = p.components := by
      rw [components_join_of_isAbsolute hroot hrelative, hpieces, reported, if_pos h,
        ← hback, List.drop_left]
    rw [absolutize, hrelative, if_neg (by simp), same_iff_components,
      components_normalize (isAbsolute_join hroot), hjoin, hp.components]
  · rw [shortText_of_not_startsWith h, absolutize, if_pos hp.absolute]
    exact hp.fixed

theorem ReportsPlainly.reportText_eq {root p : Path} (hroot : root.isAbsolute = true)
    (hp : p.isAbsolute = true) (h : ReportsPlainly root p) :
    reportText root p = shortText root p := by
  have hshort : '\\' ∉ (shortText root p).toList := by
    intro hmem
    obtain ⟨c, hc, hbackslash⟩ := (backslash_mem_iff ⟨shortText root p⟩).mp hmem
    refine h c ?_ hbackslash
    by_cases hstarts : p.startsWith root = true
    · rwa [← (shortText_of_startsWith hroot hp hstarts).2]
    · rw [reported, if_neg hstarts, components_of_isAbsolute hp]
      rw [shortText_of_not_startsWith hstarts] at hc
      exact List.mem_cons_of_mem _ hc
  rw [← String.toList_inj, reportText, String.toList_map]
  refine (List.map_congr_left fun c hc => if_neg ?_).trans (List.map_id _)
  rintro rfl
  exact hshort hc

theorem ReportsPlainly.same_absolutize {root p : Path} (hroot : root.isAbsolute = true)
    (hp : p.IsSettled) (h : ReportsPlainly root p) :
    (absolutize root ⟨reportText root p⟩).same p = true := by
  rw [h.reportText_eq hroot hp.absolute]
  exact same_absolutize_shortText hroot hp

theorem isAbsolute_reportText {root p : Path} (hp : p.isAbsolute = true)
    (h : ¬p.startsWith root = true) : (⟨reportText root p⟩ : Path).isAbsolute = true := by
  obtain ⟨rest, hrest⟩ := isAbsolute_iff.mp hp
  rw [reportText, relativeTo?, if_neg h, Option.getD_none, isAbsolute_iff]
  exact ⟨_, by rw [String.toList_map, hrest, List.map_cons, if_neg (by decide)]⟩

/-- A path that is found again was written without a backslash. -/
theorem reportsPlainly_of_same {root p : Path} (hroot : root.IsSettled)
    (hp : p.isAbsolute = true) (h : (absolutize root ⟨reportText root p⟩).same p = true) :
    ReportsPlainly root p := by
  intro c hc
  have hplain : ∀ d ∈ componentsOfPieces (⟨reportText root p⟩ : Path).pieces,
      '\\' ∉ d.text.toList := fun d hd hmem =>
    backslash_notMem_reportText root p ((backslash_mem_iff _).mpr ⟨d, hd, hmem⟩)
  cases habsolute : (⟨reportText root p⟩ : Path).isAbsolute with
  | true =>
      -- all that is left of the path comes from the report
      rw [absolutize, if_pos habsolute, same_iff_components,
        components_normalize habsolute] at h
      have hmem := mem_of_mem_normalComponents (h ▸ mem_of_mem_reported hc)
      rw [components_of_isAbsolute habsolute, List.mem_cons] at hmem
      rcases hmem with rfl | hmem
      · simp [Component.text]
      · exact hplain c hmem
  | false =>
      have hstarts : p.startsWith root = true := by
        by_contra hnot
        rw [isAbsolute_reportText hp hnot] at habsolute
        cases habsolute
      rw [absolutize, habsolute, if_neg (by simp), same_iff_components,
        components_normalize (isAbsolute_join hroot.absolute),
        components_join_of_isAbsolute hroot.absolute habsolute] at h
      rw [reported, if_pos hstarts, ← h] at hc
      exact hplain c (mem_of_mem_drop_normalComponents hroot.components hc)

theorem IsNormal.absolutize_eq_iff {root p : Path} (hroot : root.isAbsolute = true)
    (hp : p.IsNormal) (q : Path) :
    absolutize root q = p ↔ (absolutize root q).same p = true := by
  rw [same_iff_components]
  exact ⟨congrArg _, (isNormal_absolutize hroot q).eq_of_components hp⟩

/-- A path that a report names is found again. -/
theorem absolutize_reportText {root p : Path} (hroot : root.IsNormal) (hp : p.IsNormal)
    (hplain : '\\' ∉ p.text.toList) : absolutize root ⟨reportText root p⟩ = p := by
  have hreports : ReportsPlainly root p := by
    intro c hc hmem
    have hcomponents := mem_of_mem_reported hc
    rw [components_of_isAbsolute hp.absolute, List.mem_cons] at hcomponents
    rcases hcomponents with rfl | hcomponents
    · simp [Component.text] at hmem
    · exact hplain ((backslash_mem_iff p).mpr ⟨c, hcomponents, hmem⟩)
  rw [hp.absolutize_eq_iff hroot.absolute]
  exact hreports.same_absolutize hroot.absolute hp.isSettled

/-- A file is found again by its name in a report if and only if no component that was
written of its path has a backslash.  So two files with such paths never share a name. -/
theorem absolutize_reportText_iff {root : Path} (hroot : root.IsSettled) :
    (∀ p : Path, p.IsSettled →
      ((absolutize root ⟨reportText root p⟩).same p = true ↔ ReportsPlainly root p)) ∧
    (∀ p : Path, p.IsNormal →
      (absolutize root ⟨reportText root p⟩ = p ↔ ReportsPlainly root p)) ∧
    ∀ p q : Path, p.IsSettled → q.IsSettled → ReportsPlainly root p →
      ReportsPlainly root q →
      reportText root p = reportText root q → p.same q = true := by
  have hiff : ∀ p : Path, p.IsSettled →
      ((absolutize root ⟨reportText root p⟩).same p = true ↔ ReportsPlainly root p) :=
    fun p hp => ⟨reportsPlainly_of_same hroot hp.absolute,
      fun h => h.same_absolutize hroot.absolute hp⟩
  refine ⟨hiff, fun p hp => ?_, fun p q hp hq hpPlain hqPlain heq => ?_⟩
  · rw [hp.absolutize_eq_iff hroot.absolute]
    exact hiff p hp.isSettled
  · have hpBack := same_iff_components.mp (hpPlain.same_absolutize hroot.absolute hp)
    have hqBack := same_iff_components.mp (hqPlain.same_absolutize hroot.absolute hq)
    rw [same_iff_components, ← hpBack, ← hqBack, heq]

/-- Behind a backslash at its front, a name from the folder is taken for one from the root.
Without one, a path leads back however it is written, and outside the folder too. -/
theorem absolutize_reportText_iff_front :
    (⟨"/proj/"⟩ : Path).IsSettled ∧
    reportText ⟨"/proj/"⟩ ⟨"/proj/\\a.ts"⟩ = "/a.ts" ∧
    absolutize ⟨"/proj/"⟩ ⟨reportText ⟨"/proj/"⟩ ⟨"/proj/\\a.ts"⟩⟩ ≠ ⟨"/proj/\\a.ts"⟩ ∧
    (absolutize ⟨"/proj/"⟩ ⟨reportText ⟨"/proj/"⟩ ⟨"/proj//b/a.ts"⟩⟩).same
      ⟨"/proj//b/a.ts"⟩ = true ∧
    absolutize ⟨"/proj/"⟩ ⟨reportText ⟨"/proj/"⟩ ⟨"/../a.ts"⟩⟩ = ⟨"/../a.ts"⟩ ∧
    (⟨"/proj//b/a.ts"⟩ : Path).same ⟨"/proj/b/a.ts"⟩ = true := by
  have hroot : (⟨"/proj/"⟩ : Path).IsSettled := ⟨by decide, by decide +kernel⟩
  have hdouble : (⟨"/proj//b/a.ts"⟩ : Path).IsSettled := ⟨by decide, by decide +kernel⟩
  have hdoublePlain : ReportsPlainly ⟨"/proj/"⟩ ⟨"/proj//b/a.ts"⟩ := by
    unfold ReportsPlainly
    decide +kernel
  have hsingle : (⟨"/proj/b/a.ts"⟩ : Path).IsSettled := ⟨by decide, by decide +kernel⟩
  have hsinglePlain : ReportsPlainly ⟨"/proj/"⟩ ⟨"/proj/b/a.ts"⟩ := by
    unfold ReportsPlainly
    decide +kernel
  obtain ⟨hsettled, hnormal, hinjective⟩ := absolutize_reportText_iff hroot
  refine ⟨hroot, by decide +kernel, ?_, (hsettled _ hdouble).mpr hdoublePlain, ?_,
    hinjective _ _ hdouble hsingle hdoublePlain hsinglePlain (by decide +kernel)⟩
  · rw [ne_eq, hnormal _ ⟨by decide, by decide +kernel⟩]
    unfold ReportsPlainly
    decide +kernel
  · refine (hnormal _ ⟨by decide, by decide +kernel⟩).mpr ?_
    unfold ReportsPlainly
    decide +kernel

end StylePrune.Path
