import Mathlib.Data.List.Pairwise
import Mathlib.Data.String.Basic
import StylePrune.Import.Resolve
import StylePrune.Proofs.Path.Ending

/-!
# The style file that an import means

An import of a path may mean a style file in several forms: the path itself, the path
with an extension, or an index file in the folder of that path.  The search tries the
forms in a fixed order and answers with the first one that is there
(`matchStyle?_eq_some_iff`).  Which extensions are tried depends on all style files, yet a
style file that has none of the forms changes nothing: a form that is found is found
under the extension of the style file itself.
-/

namespace StylePrune

namespace Names

theorem mem_insert {name other : String} {names : Names} :
    other ∈ insert name names ↔ other = name ∨ other ∈ names := by
  induction names with
  | nil => simp [insert]
  | cons n ns ih =>
      rw [insert]
      split
      · simp
      · split
        · rename_i heq
          simp [heq]
        · rw [List.mem_cons, ih, List.mem_cons]
          exact or_left_comm

theorem pairwise_insert {names : Names} (h : names.Pairwise (· < ·)) (name : String) :
    (insert name names).Pairwise (· < ·) := by
  induction names with
  | nil => exact List.pairwise_singleton _ _
  | cons n ns ih =>
      obtain ⟨hhead, hrest⟩ := List.pairwise_cons.mp h
      rw [insert]
      split
      · rename_i hlt
        refine List.pairwise_cons.mpr ⟨?_, h⟩
        exact List.forall_mem_cons.mpr ⟨hlt, fun m hm => hlt.trans (hhead m hm)⟩
      · rename_i hle
        split
        · exact h
        · rename_i hne
          refine List.pairwise_cons.mpr ⟨fun m hm => ?_, ih hrest⟩
          rcases mem_insert.mp hm with rfl | hm
          · exact lt_of_le_of_ne (not_lt.mp hle) (Ne.symm hne)
          · exact hhead m hm

theorem mem_ofList {names : List String} {name : String} :
    name ∈ ofList names ↔ name ∈ names := by
  have hfold : ∀ set : Names, name ∈ names.foldl (fun set name => insert name set) set ↔
      name ∈ names ∨ name ∈ set := by
    induction names with
    | nil => simp
    | cons n ns ih =>
        intro set
        rw [List.foldl_cons, ih, mem_insert, List.mem_cons]
        exact or_left_comm.trans or_assoc.symm
  have hnil := hfold []
  rwa [or_iff_left List.not_mem_nil] at hnil

theorem pairwise_ofList (names : List String) : (ofList names).Pairwise (· < ·) := by
  have hfold : ∀ set : Names, set.Pairwise (· < ·) →
      (names.foldl (fun set name => insert name set) set).Pairwise (· < ·) := by
    induction names with
    | nil => exact fun set hset => hset
    | cons n ns ih => exact fun set hset => ih _ (pairwise_insert hset n)
  exact hfold [] List.Pairwise.nil

end Names

namespace Import

open Component StylePrune.Path

/-! ## Forms -/

/-- What a style file may be to an import of a path. -/
inductive Form where
  /-- The path itself. -/
  | exact
  /-- The path with an extension. -/
  | extended (ext : String)
  /-- The index file of the path's folder. -/
  | index (ext : String)
deriving DecidableEq, Repr

namespace Form

/-- The path that an import of `base` means in a form. -/
def path (base : Path) : Form → Path
  | .exact => base
  | .extended ext => ⟨base.text ++ "." ++ ext⟩
  | .index ext => base.join ⟨"index." ++ ext⟩

/-- The extension that a form adds. -/
def ext? : Form → Option String
  | .exact => none
  | .extended ext | .index ext => some ext

/-- A form is tried in front of another: the path itself first, then extension by extension
in their order, the extended path in front of the index file. -/
def TriedBefore : Form → Form → Prop
  | _, .exact => False
  | .exact, _ => True
  | .extended x, .index y => x ≤ y
  | .extended x, .extended y => x < y
  | .index x, .extended y | .index x, .index y => x < y

theorem TriedBefore.asymm : ∀ {f g : Form}, f.TriedBefore g → ¬g.TriedBefore f
  | .exact, .extended _, _ | .exact, .index _, _ => id
  | .extended _, .extended _, h | .index _, .index _, (h : _ < _) => lt_asymm h
  | .extended _, .index _, (h : _ ≤ _) => not_lt.mpr h
  | .index _, .extended _, (h : _ < _) => not_le.mpr h

/-- The forms with the given extensions, in the order they are tried. -/
def all (extensions : List String) : List Form :=
  .exact :: extensions.flatMap fun ext => [.extended ext, .index ext]

theorem map_path_all (base : Path) (extensions : List String) :
    (all extensions).map (path base) = candidates base extensions := by
  rw [all, List.map_cons, List.map_flatMap]
  rfl

theorem mem_all {extensions : List String} {f : Form} :
    f ∈ all extensions ↔ ∀ ext ∈ f.ext?, ext ∈ extensions := by
  cases f <;> simp [all, ext?]

theorem pairwise_all {extensions : List String} (h : extensions.Pairwise (· < ·)) :
    (all extensions).Pairwise TriedBefore := by
  refine List.pairwise_cons.mpr
    ⟨fun f hf => ?_, List.pairwise_flatMap.mpr ⟨fun ext _ => ?_, ?_⟩⟩
  · obtain ⟨ext, -, hext⟩ := List.mem_flatMap.mp hf
    cases f <;> simp_all [TriedBefore]
  · simp [TriedBefore]
  · refine h.imp fun {x y} hlt f hf g hg => ?_
    cases f <;> cases g <;> simp_all [TriedBefore, le_of_lt]

end Form

/-! ## The search -/

/-- In a list in order, a search finds the first element that passes. -/
theorem find?_eq_some_iff_of_pairwise {α : Type} {r : α → α → Prop}
    (hr : ∀ {a b}, r a b → ¬r b a) {test : α → Bool} {l : List α} (h : l.Pairwise r)
    {a : α} :
    l.find? test = some a ↔ a ∈ l ∧ test a = true ∧ ∀ b ∈ l, r b a → test b = false := by
  induction l with
  | nil => simp
  | cons c l ih =>
      obtain ⟨hhead, hrest⟩ := List.pairwise_cons.mp h
      by_cases hc : test c = true
      · rw [List.find?_cons_of_pos hc, Option.some.injEq]
        constructor
        · rintro rfl
          refine ⟨List.mem_cons_self, hc, fun b hb hbefore => ?_⟩
          rcases List.mem_cons.mp hb with rfl | hb
          · exact (hr hbefore hbefore).elim
          · exact (hr (hhead b hb) hbefore).elim
        · rintro ⟨ha, -, hfirst⟩
          rcases List.mem_cons.mp ha with rfl | ha
          · rfl
          · rw [hfirst c List.mem_cons_self (hhead a ha)] at hc
            cases hc
      · have hfalse : test c = false := by simpa using hc
        rw [List.find?_cons_of_neg hc, ih hrest]
        constructor
        · rintro ⟨ha, htest, hfirst⟩
          exact ⟨List.mem_cons_of_mem _ ha, htest,
            List.forall_mem_cons.mpr ⟨fun _ => hfalse, hfirst⟩⟩
        · rintro ⟨ha, htest, hfirst⟩
          refine ⟨(List.mem_cons.mp ha).resolve_left ?_, htest,
            (List.forall_mem_cons.mp hfirst).2⟩
          rintro rfl
          exact hc htest

theorem mem_extensions {styles : List Path} {ext : String} :
    ext ∈ extensions styles ↔ ∃ style ∈ styles, style.extension? = some ext := by
  rw [extensions, Names.mem_ofList, List.mem_filterMap]

/-- A form of an import of `base` is among style files, under an extension that they
have. -/
def Form.FoundIn (styles : List Path) (base : Path) (f : Form) : Prop :=
  (∀ ext ∈ f.ext?, ext ∈ extensions styles) ∧
    ∃ style ∈ styles, (f.path base).same style = true

theorem foundIn_iff_mem_all {base : Path} {styles : List Path} {f : Form} :
    f.FoundIn styles base ↔
      f ∈ Form.all (extensions styles) ∧ styles.any (f.path base).same = true := by
  rw [Form.mem_all, List.any_eq_true]
  rfl

/-- The search answers with the form that is found and tried in front of all others. -/
theorem matchStyle?_eq_some_iff {base p : Path} {styles : List Path} :
    matchStyle? base styles = some p ↔
      ∃ f : Form, p = f.path base ∧ f.FoundIn styles base ∧
        ∀ g : Form, g.TriedBefore f → ¬g.FoundIn styles base := by
  have hpairwise :=
    Form.pairwise_all (Names.pairwise_ofList (styles.filterMap Path.extension?))
  rw [matchStyle?, ← Form.map_path_all, List.find?_map, Option.map_eq_some_iff]
  refine exists_congr fun f => ?_
  rw [extensions, find?_eq_some_iff_of_pairwise Form.TriedBefore.asymm hpairwise]
  constructor
  · rintro ⟨⟨hmem, htest, hfirst⟩, rfl⟩
    refine ⟨rfl, foundIn_iff_mem_all.mpr ⟨hmem, htest⟩, fun g hbefore hg => ?_⟩
    obtain ⟨hg, hgtest⟩ := foundIn_iff_mem_all.mp hg
    exact Bool.false_ne_true ((hfirst g hg hbefore).symm.trans hgtest)
  · rintro ⟨rfl, hf, hfirst⟩
    obtain ⟨hmem, htest⟩ := foundIn_iff_mem_all.mp hf
    refine ⟨⟨hmem, htest, fun g hg hbefore => ?_⟩, rfl⟩
    exact Bool.eq_false_iff.mpr fun hgtest =>
      hfirst g hbefore (foundIn_iff_mem_all.mpr ⟨hg, hgtest⟩)

theorem matchStyle?_eq_none_iff {base : Path} {styles : List Path} :
    matchStyle? base styles = none ↔ ∀ f : Form, ¬f.FoundIn styles base := by
  rw [matchStyle?, ← Form.map_path_all, List.find?_map, Option.map_eq_none_iff,
    List.find?_eq_none]
  refine forall_congr' fun f => ?_
  rw [foundIn_iff_mem_all, not_and]
  rfl

/-! ## Forms and extensions -/

/-- An import of `base` means a style file in a form, with the style file's own
extension. -/
def Form.Denotes (f : Form) (base style : Path) : Prop :=
  (∀ ext ∈ f.ext?, style.extension? = some ext) ∧ (f.path base).same style = true

theorem Form.Denotes.foundIn {f : Form} {base style : Path} (h : f.Denotes base style)
    {styles : List Path} (hstyle : style ∈ styles) : f.FoundIn styles base :=
  ⟨fun ext hext => mem_extensions.mpr ⟨style, hstyle, h.1 ext hext⟩, style, hstyle, h.2⟩

theorem extension?_of_same {p q : Path} (h : p.same q = true) :
    p.extension? = q.extension? := by
  have hcomponents : p.components = q.components := of_decide_eq_true h
  rw [Path.extension?, Path.extension?, fileName?, fileName?, hcomponents]

/-- An extension has no dot, and no slash. -/
theorem notMem_extension {style : Path} {ext : String} (h : style.extension? = some ext) :
    '.' ∉ ext.toList ∧ '/' ∉ ext.toList := by
  obtain ⟨stem, -, hdot, hname⟩ := extension?_eq_some_iff.mp h
  have hlast := fileName?_eq_some_iff.mp hname
  have hslash := (isName_of_mem_components (List.mem_of_getLast? hlast)).noSlash
  rw [String.toList_append, List.mem_append, not_or] at hslash
  exact ⟨hdot, hslash.2⟩

/-- A name with an extension is a name. -/
theorem isName_append_extension {stem ext : String} (hstem : IsName stem)
    (hext : '/' ∉ ext.toList) : IsName (stem ++ ("." ++ ext)) := by
  obtain ⟨c, cs, hcs⟩ : ∃ c cs, stem.toList = c :: cs :=
    List.exists_cons_of_ne_nil fun hnil => hstem.ne_empty (String.toList_inj.mp hnil)
  have hlist : (stem ++ ("." ++ ext)).toList = c :: (cs ++ '.' :: ext.toList) := by
    simp [hcs]
  refine ⟨?_, ?_, ?_, ?_⟩
  · intro heq
    rw [heq] at hlist
    cases hlist
  · intro heq
    rw [heq] at hlist
    have hnil : [] = cs ++ '.' :: ext.toList := (List.cons.inj hlist).2
    simp at hnil
  · intro heq
    rw [heq] at hlist
    obtain ⟨hc, hrest⟩ := List.cons.inj hlist
    have hone : ['.'] = cs ++ '.' :: ext.toList := hrest
    have hnil : cs = [] := by
      have hlength := congrArg List.length hone
      simp only [List.length_append, List.length_cons, List.length_nil] at hlength
      exact List.eq_nil_of_length_eq_zero (by omega)
    refine hstem.ne_here (String.toList_inj.mp ?_)
    rw [hcs, hnil, ← hc]
    rfl
  · have hslash := hstem.noSlash
    rw [hcs] at hslash
    rw [hlist]
    simp_all

theorem isName_index {ext : String} (hext : '/' ∉ ext.toList) :
    IsName ("index." ++ ext) := by
  have hindex : IsName "index" := by decide
  have hname := isName_append_extension hindex hext
  rwa [← String.append_assoc] at hname

section Forms

variable {base : Path} {lead front : List Component} {name : String}

theorem endsIn_path_extended (h : EndsIn base lead front name) {ext : String}
    (hext : '/' ∉ ext.toList) :
    EndsIn ((Form.extended ext).path base) lead front (name ++ ("." ++ ext)) := by
  rw [Form.path, String.append_assoc]
  exact h.append (isName_append_extension h.isName hext)

theorem endsIn_path_index (h : EndsIn base lead front name) {ext : String}
    (hext : '/' ∉ ext.toList) :
    EndsIn ((Form.index ext).path base) lead (front ++ [.name name]) ("index." ++ ext) :=
  h.join (isName_index hext)

/-- A form of a path that ends with a name has the extension that it adds. -/
theorem extension?_path (h : EndsIn base lead front name) {f : Form} {ext : String}
    (hf : f.ext? = some ext) (hdot : '.' ∉ ext.toList) (hslash : '/' ∉ ext.toList) :
    (f.path base).extension? = some ext := by
  rw [extension?_eq_some_iff]
  cases f with
  | exact => cases hf
  | extended x =>
      obtain rfl : x = ext := Option.some.inj hf
      have hname := (endsIn_path_extended h hslash).fileName?
      rw [← String.append_assoc] at hname
      exact ⟨name, h.isName.ne_empty, hdot, hname⟩
  | index x =>
      obtain rfl : x = ext := Option.some.inj hf
      exact ⟨"index", by decide, hdot, (endsIn_path_index h hslash).fileName?⟩

/-- Under which extension a form is found is up to the style file that it is. -/
theorem foundIn_iff (h : EndsIn base lead front name) {styles : List Path} {f : Form} :
    f.FoundIn styles base ↔ ∃ style ∈ styles, f.Denotes base style := by
  constructor
  · rintro ⟨hext, style, hstyle, hsame⟩
    refine ⟨style, hstyle, fun ext hf => ?_, hsame⟩
    obtain ⟨other, -, hother⟩ := mem_extensions.mp (hext ext hf)
    obtain ⟨hdot, hslash⟩ := notMem_extension hother
    rw [← extension?_of_same hsame, extension?_path h hf hdot hslash]
  · rintro ⟨style, hstyle, hdenotes⟩
    exact hdenotes.foundIn hstyle

end Forms

/-- The search finds a style file that the import means if there is one, and no other; and
style files that the import does not mean play no part in it. -/
theorem matchStyle?_sound_complete_local {base : Path} (hnormal : base.normalize = base)
    (hname : base.fileName?.isSome) (styles : List Path) :
    (∀ p, matchStyle? base styles = some p →
      (∃ style ∈ styles, p.same style = true) ∧
        ∃ f : Form, p = f.path base ∧ ∀ ext ∈ f.ext?, p.extension? = some ext) ∧
    (matchStyle? base styles = none ↔ ∀ style ∈ styles, ¬∃ f : Form, f.Denotes base style) ∧
    ∀ style more, (∀ s, s ∈ more ↔ s = style ∨ s ∈ styles) →
      (¬∃ f : Form, f.Denotes base style) →
        matchStyle? base more = matchStyle? base styles := by
  obtain ⟨name, hname⟩ := Option.isSome_iff_exists.mp hname
  obtain ⟨lead, front, hends⟩ := exists_endsIn hnormal hname
  refine ⟨fun p hp => ?_, ?_, fun style more hmore hnone => ?_⟩
  · obtain ⟨f, rfl, hfound, -⟩ := matchStyle?_eq_some_iff.mp hp
    obtain ⟨style, hstyle, hext, hsame⟩ := (foundIn_iff hends).mp hfound
    refine ⟨⟨style, hstyle, hsame⟩, f, rfl, fun ext hf => ?_⟩
    rw [extension?_of_same hsame, hext ext hf]
  · simp only [matchStyle?_eq_none_iff, foundIn_iff hends]
    constructor
    · rintro hnone style hstyle ⟨f, hf⟩
      exact hnone f ⟨style, hstyle, hf⟩
    · rintro hnone f ⟨style, hstyle, hf⟩
      exact hnone style hstyle ⟨f, hf⟩
  · have hfound : ∀ f : Form, f.FoundIn more base ↔ f.FoundIn styles base := by
      intro f
      rw [foundIn_iff hends, foundIn_iff hends]
      constructor
      · rintro ⟨s, hs, hdenotes⟩
        rcases (hmore s).mp hs with rfl | hs
        · exact (hnone ⟨f, hdenotes⟩).elim
        · exact ⟨s, hs, hdenotes⟩
      · rintro ⟨s, hs, hdenotes⟩
        exact ⟨s, (hmore s).mpr (Or.inr hs), hdenotes⟩
    refine Option.ext fun p => ?_
    rw [matchStyle?_eq_some_iff, matchStyle?_eq_some_iff]
    simp only [hfound]

/-- An unrelated style file with an extension of its own does not hide an index file. -/
theorem matchStyle?_sound_complete_local_index :
    let base : Path := ⟨"/app/Card.styles"⟩
    matchStyle? base [⟨"/app/Button.jsx"⟩, ⟨"/app/Card.styles/index.ts"⟩] =
      some ⟨"/app/Card.styles/index.ts"⟩ := by
  intro base
  have hnormal : base.normalize = base := by decide +kernel
  have hlocal := (matchStyle?_sound_complete_local hnormal (by decide +kernel)
    [⟨"/app/Card.styles/index.ts"⟩]).2.2 ⟨"/app/Button.jsx"⟩
    [⟨"/app/Button.jsx"⟩, ⟨"/app/Card.styles/index.ts"⟩] (by simp)
  rw [hlocal]
  · decide +kernel
  · rintro ⟨f, hext, hsame⟩
    have hjsx : (⟨"/app/Button.jsx"⟩ : Path).extension? = some "jsx" := by decide +kernel
    rw [hjsx] at hext
    cases f with
    | exact => exact absurd hsame (by decide +kernel)
    | extended ext =>
        obtain rfl : "jsx" = ext := Option.some.inj (hext ext rfl)
        exact absurd hsame (by decide +kernel)
    | index ext =>
        obtain rfl : "jsx" = ext := Option.some.inj (hext ext rfl)
        exact absurd hsame (by decide +kernel)

end Import

end StylePrune
