import Mathlib.Data.List.Basic
import StylePrune.Path.Normal

/-!
# Components and normal forms

The text of a path is split at its slashes, and its components are what the
pieces stand for.  Components that are written as a text are read back from it.
An absolute path that normalizing leaves as it is carries its components in
plain sight, and leading on from it by names appends them.
-/

namespace StylePrune

theorem Text.pieces_eq_splitOn (sep : Char) (text : List Char) :
    Text.pieces (· == sep) text = text.splitOn sep := by
  induction text with
  | nil => rfl
  | cons c text ih =>
      rw [Text.pieces, ih, List.splitOn_cons_eq_if_modifyHead]
      split
      · rfl
      · cases hrest : text.splitOn sep with
        | nil => exact (List.splitOn_ne_nil _ _ hrest).elim
        | cons piece rest => rfl

namespace Component

/-- The names that a piece of a path can have. -/
structure IsName (name : String) : Prop where
  ne_empty : name ≠ ""
  ne_here : name ≠ "."
  ne_up : name ≠ ".."
  noSlash : '/' ∉ name.toList

instance (name : String) : Decidable (IsName name) :=
  decidable_of_iff (name ≠ "" ∧ name ≠ "." ∧ name ≠ ".." ∧ '/' ∉ name.toList)
    ⟨fun h => ⟨h.1, h.2.1, h.2.2.1, h.2.2.2⟩, fun h => ⟨h.1, h.2, h.3, h.4⟩⟩

/-- The components that a piece behind the first can stand for. -/
inductive IsPlain : Component → Prop where
  | up : IsPlain .up
  | name {name : String} (h : IsName name) : IsPlain (.name name)

theorem IsPlain.noSlash {c : Component} (h : IsPlain c) : '/' ∉ c.text.toList := by
  cases h with
  | up => decide
  | name h => exact h.noSlash

theorem IsPlain.text_ne {c : Component} (h : IsPlain c) :
    c.text.toList ≠ [] ∧ c.text.toList ≠ ['.'] := by
  cases h with
  | up => decide
  | name h =>
      exact ⟨fun heq => h.ne_empty (String.toList_inj.mp heq),
        fun heq => h.ne_here (String.toList_inj.mp heq)⟩

/-- A component is read back from its text. -/
theorem IsPlain.ofPiece? {c : Component} (h : IsPlain c) :
    ofPiece? c.text.toList = some c := by
  rw [Component.ofPiece?, if_neg (not_or.mpr h.text_ne)]
  cases h with
  | up => rfl
  | @name n h =>
      have hup : n.toList ≠ ['.', '.'] := fun heq => h.ne_up (String.toList_inj.mp heq)
      rw [text, if_neg hup, String.ofList_toList]

/-- A piece stands for a plain component if for any. -/
theorem isPlain_of_ofPiece? {piece : List Char} {c : Component} (hslash : '/' ∉ piece)
    (h : Component.ofPiece? piece = some c) : IsPlain c := by
  unfold Component.ofPiece? at h
  split at h
  · cases h
  · rename_i hhollow
    split at h
    · cases h
      exact .up
    · rename_i hup
      cases h
      refine .name ⟨?_, ?_, ?_, by simpa using hslash⟩
      · intro heq
        exact hhollow (Or.inl (by simpa using congrArg String.toList heq))
      · intro heq
        exact hhollow (Or.inr (by simpa using congrArg String.toList heq))
      · intro heq
        exact hup (by simpa using congrArg String.toList heq)

end Component

namespace Path

open Component

/-! ## Reading components back -/

theorem pieces_eq (p : Path) : p.pieces = p.text.toList.splitOn '/' :=
  Text.pieces_eq_splitOn '/' _

theorem noSlash_of_mem_splitOn {text piece : List Char} (h : piece ∈ text.splitOn '/') :
    '/' ∉ piece := by
  induction text generalizing piece with
  | nil =>
      rw [List.splitOn_nil, List.mem_singleton] at h
      simp [h]
  | cons c text ih =>
      rw [List.splitOn_cons_eq_if_modifyHead] at h
      split at h
      · rcases List.mem_cons.mp h with rfl | h
        · simp
        · exact ih h
      · rename_i hc
        cases hrest : text.splitOn '/' with
        | nil => exact (List.splitOn_ne_nil _ _ hrest).elim
        | cons first rest =>
            rw [hrest, List.modifyHead_cons] at h
            rcases List.mem_cons.mp h with rfl | h
            · have hfirst : '/' ∉ first := ih (by simp [hrest])
              have hne : c ≠ '/' := by simpa using hc
              simp [hfirst, hne.symm]
            · exact ih (by simp [hrest, h])

theorem isPlain_of_mem_componentsOfPieces {text : List Char} {c : Component}
    (h : c ∈ componentsOfPieces (text.splitOn '/')) : IsPlain c := by
  obtain ⟨piece, hpiece, hc⟩ := List.mem_filterMap.mp h
  exact isPlain_of_ofPiece? (noSlash_of_mem_splitOn hpiece) hc

theorem isAbsolute_iff {p : Path} :
    p.isAbsolute = true ↔ ∃ rest, p.text.toList = '/' :: rest := by
  rw [isAbsolute, decide_eq_true_iff, List.head?_eq_some_iff]

theorem lead?_of_absolute {p : Path} {rest : List Char} (h : p.text.toList = '/' :: rest) :
    p.lead? = some .root ∧ p.body = rest.splitOn '/' := by
  have hpieces : p.pieces = [] :: rest.splitOn '/' := by
    rw [pieces_eq, h, List.splitOn_cons_eq_if_modifyHead]
    rfl
  have hlead : p.lead? = some .root := by
    rw [lead?, hpieces]
    cases hrest : rest.splitOn '/' with
    | nil => exact (List.splitOn_ne_nil _ _ hrest).elim
    | cons piece pieces => rfl
  refine ⟨hlead, ?_⟩
  rw [body, hlead, hpieces]
  rfl

/-- The components of an absolute path. -/
theorem components_of_absolute {p : Path} {rest : List Char}
    (h : p.text.toList = '/' :: rest) :
    p.components = .root :: componentsOfPieces (rest.splitOn '/') := by
  obtain ⟨hlead, hbody⟩ := lead?_of_absolute h
  rw [components, hlead, hbody]
  rfl

theorem componentsOfPieces_map_text {cs : List Component} (h : ∀ c ∈ cs, IsPlain c) :
    componentsOfPieces (cs.map fun c => c.text.toList) = cs := by
  rw [componentsOfPieces, List.filterMap_map]
  calc
    cs.filterMap (Component.ofPiece? ∘ fun c => c.text.toList) = cs.filterMap some :=
      List.filterMap_congr fun c hc => (h c hc).ofPiece?
    _ = cs := List.filterMap_some

/-- The text of an absolute path behind its first slash. -/
theorem toList_textOf_root (cs : List Component) :
    (textOf (.root :: cs)).toList =
      '/' :: ['/'].intercalate (cs.map fun c => c.text.toList) := by
  rw [textOf, String.toList_append, String.toList_intercalate, List.map_map]
  rfl

/-- The pieces of an absolute path behind its first slash. -/
theorem splitOn_intercalate_text {cs : List Component} (h : ∀ c ∈ cs, IsPlain c)
    (hne : cs ≠ []) :
    (['/'].intercalate (cs.map fun c => c.text.toList)).splitOn '/' =
      cs.map fun c => c.text.toList := by
  refine List.splitOn_intercalate '/' ?_ (by simpa using hne)
  intro piece hpiece
  obtain ⟨c, hc, rfl⟩ := List.mem_map.mp hpiece
  exact (h c hc).noSlash

theorem componentsOfPieces_intercalate {cs : List Component} (h : ∀ c ∈ cs, IsPlain c) :
    componentsOfPieces ((['/'].intercalate (cs.map fun c => c.text.toList)).splitOn '/') =
      cs := by
  by_cases hne : cs = []
  · subst hne
    rfl
  · rw [splitOn_intercalate_text h hne, componentsOfPieces_map_text h]

theorem isAbsolute_ofComponents_root (cs : List Component) :
    (ofComponents (.root :: cs)).isAbsolute = true :=
  isAbsolute_iff.mpr ⟨_, toList_textOf_root cs⟩

/-- The components of an absolute path are read back from its text. -/
theorem components_ofComponents_root {cs : List Component} (h : ∀ c ∈ cs, IsPlain c) :
    (ofComponents (.root :: cs)).components = .root :: cs := by
  rw [components_of_absolute (p := ofComponents (.root :: cs)) (toList_textOf_root cs),
    componentsOfPieces_intercalate h]

/-! ## Normal paths -/

theorem pushComponent_name (front : List Component) (name : String) :
    pushComponent front (.name name) = .name name :: front := by
  rcases front with _ | ⟨_ | _ | _ | _, _⟩ <;> rfl

theorem foldl_pushComponent_names (front : List Component) (names : List String) :
    (names.map Component.name).foldl pushComponent front =
      (names.map Component.name).reverse ++ front := by
  induction names generalizing front with
  | nil => rfl
  | cons name names ih =>
      rw [List.map_cons, List.foldl_cons, pushComponent_name, ih, List.reverse_cons,
        List.append_assoc]
      rfl

theorem normalComponents_append_names {cs : List Component} (names : List String)
    (h : normalComponents cs = cs) :
    normalComponents (cs ++ names.map .name) = cs ++ names.map .name := by
  rw [normalComponents, List.foldl_append, foldl_pushComponent_names, List.reverse_append,
    List.reverse_reverse]
  congr 1

/-- What normalizing leaves behind the root: names, and at most one `..` in front of
them. -/
inductive IsTail : List Component → Prop where
  | below {names : List String} (h : ∀ name ∈ names, IsName name) : IsTail (names.map .name)
  | above {names : List String} (h : ∀ name ∈ names, IsName name) :
      IsTail (.up :: names.map .name)

theorem IsTail.plain {cs : List Component} (h : IsTail cs) : ∀ c ∈ cs, IsPlain c := by
  have hnames : ∀ {names : List String}, (∀ name ∈ names, IsName name) →
      ∀ c ∈ names.map Component.name, IsPlain c := by
    intro names hnames c hc
    obtain ⟨name, hname, rfl⟩ := List.mem_map.mp hc
    exact .name (hnames name hname)
  cases h with
  | below h => exact hnames h
  | above h =>
      intro c hc
      rcases List.mem_cons.mp hc with rfl | hc
      · exact .up
      · exact hnames h c hc

theorem IsTail.normalComponents {cs : List Component} (h : IsTail cs) :
    normalComponents (.root :: cs) = .root :: cs := by
  have hroot : Path.normalComponents [.root] = [.root] := rfl
  have hup : Path.normalComponents [.root, .up] = [.root, .up] := rfl
  cases h with
  | @below names h => exact normalComponents_append_names names hroot
  | @above names h => exact normalComponents_append_names names hup

theorem IsTail.append_names {cs : List Component} (h : IsTail cs) {names : List String}
    (hnames : ∀ name ∈ names, IsName name) : IsTail (cs ++ names.map .name) := by
  have hall : ∀ {front : List String}, (∀ name ∈ front, IsName name) →
      ∀ name ∈ front ++ names, IsName name := by
    intro front hfront name hname
    rcases List.mem_append.mp hname with hname | hname
    · exact hfront name hname
    · exact hnames name hname
  cases h with
  | below h =>
      rw [← List.map_append]
      exact .below (hall h)
  | above h =>
      rw [List.cons_append, ← List.map_append]
      exact .above (hall h)

/-- What stands in front of the names of a normal path: the root, or nothing. -/
inductive IsLead : List Component → Prop where
  | root : IsLead [.root]
  | nothing : IsLead []

theorem exists_pushComponent {lead cs : List Component} {c : Component}
    (hlead : IsLead lead) (hcs : IsTail cs) (hc : IsPlain c) :
    ∃ cs', pushComponent (lead ++ cs).reverse c = (lead ++ cs').reverse ∧ IsTail cs' := by
  cases hc with
  | @name n hname =>
      refine ⟨cs ++ [.name n], ?_, hcs.append_names (List.forall_mem_singleton.mpr hname)⟩
      rw [pushComponent_name]
      simp
  | up =>
      -- a `..` takes back the last component, down to what the path begins with
      cases hcs with
      | @below names h =>
          rcases List.eq_nil_or_concat' names with rfl | ⟨front, name, rfl⟩
          · refine ⟨[.up], ?_, .above h⟩
            cases hlead <;> rfl
          · refine ⟨front.map .name, ?_, .below fun n hn => h n (by simp [hn])⟩
            simp [pushComponent]
      | @above names h =>
          rcases List.eq_nil_or_concat' names with rfl | ⟨front, name, rfl⟩
          · refine ⟨[], ?_, .below h⟩
            cases hlead <;> rfl
          · refine ⟨.up :: front.map .name, ?_, .above fun n hn => h n (by simp [hn])⟩
            simp [pushComponent]

theorem exists_foldl_pushComponent {lead cs more : List Component} (hlead : IsLead lead)
    (hcs : IsTail cs) (hmore : ∀ c ∈ more, IsPlain c) :
    ∃ cs', more.foldl pushComponent (lead ++ cs).reverse = (lead ++ cs').reverse ∧
      IsTail cs' := by
  induction more generalizing cs with
  | nil => exact ⟨cs, rfl, hcs⟩
  | cons c more ih =>
      obtain ⟨cs', hpush, hcs'⟩ := exists_pushComponent hlead hcs (hmore c (by simp))
      rw [List.foldl_cons, hpush]
      exact ih hcs' fun d hd => hmore d (by simp [hd])

theorem isTail_nil : IsTail [] :=
  .below (List.forall_mem_nil _)

theorem exists_normalComponents {p : Path} (h : p.isAbsolute = true) :
    ∃ cs, normalComponents p.components = .root :: cs ∧ IsTail cs := by
  obtain ⟨rest, hrest⟩ := isAbsolute_iff.mp h
  have hplain : ∀ c ∈ componentsOfPieces (rest.splitOn '/'), IsPlain c :=
    fun c hc => isPlain_of_mem_componentsOfPieces hc
  obtain ⟨cs, hfold, hcs⟩ := exists_foldl_pushComponent .root isTail_nil hplain
  refine ⟨cs, ?_, hcs⟩
  have hroot : pushComponent [] .root = [Component.root].reverse := rfl
  rw [normalComponents, components_of_absolute hrest, List.foldl_cons, hroot]
  exact List.reverse_eq_iff.mpr hfold

/-- The paths that begin at the root and are written in normal form. -/
structure IsNormal (p : Path) : Prop where
  absolute : p.isAbsolute = true
  fixed : p.normalize = p

theorem IsTail.components {cs : List Component} (h : IsTail cs) :
    (ofComponents (.root :: cs)).components = .root :: cs :=
  components_ofComponents_root h.plain

theorem IsTail.isNormal {cs : List Component} (h : IsTail cs) :
    (ofComponents (.root :: cs)).IsNormal := by
  refine ⟨isAbsolute_ofComponents_root cs, ?_⟩
  rw [normalize, h.components, h.normalComponents]

/-- A normal path is the text of its components. -/
theorem IsNormal.exists_tail {p : Path} (h : p.IsNormal) :
    ∃ cs, p = ofComponents (.root :: cs) ∧ IsTail cs := by
  obtain ⟨cs, hcs, htail⟩ := exists_normalComponents h.absolute
  refine ⟨cs, ?_, htail⟩
  conv_lhs => rw [← h.fixed]
  rw [normalize, hcs]

theorem IsNormal.eq_of_components {p q : Path} (hp : p.IsNormal) (hq : q.IsNormal)
    (h : p.components = q.components) : p = q := by
  rw [← hp.fixed, ← hq.fixed, normalize, normalize, h]

theorem isNormal_normalize {p : Path} (h : p.isAbsolute = true) : p.normalize.IsNormal := by
  obtain ⟨cs, hcs, htail⟩ := exists_normalComponents h
  rw [normalize, hcs]
  exact htail.isNormal

/-! ## Leading on -/

theorem textOf_concat {cs : List Component} (hne : cs ≠ []) (c : Component) :
    textOf (.root :: (cs ++ [c])) = textOf (.root :: cs) ++ "/" ++ c.text := by
  rw [textOf, List.map_append,
    String.intercalate_append_of_ne_nil (by simpa using hne) (by simp), textOf]
  simp [String.append_assoc]

/-- Behind a normal path other than the root, a slash is missing. -/
theorem getLast?_textOf_root {cs : List Component} (hplain : ∀ c ∈ cs, IsPlain c)
    (hne : cs ≠ []) : (textOf (.root :: cs)).toList.getLast? ≠ some '/' := by
  obtain ⟨front, c, rfl⟩ := (List.eq_nil_or_concat' cs).resolve_left hne
  have hc := hplain c (by simp)
  have htext : ∃ text, textOf (.root :: (front ++ [c])) = text ++ c.text := by
    by_cases hfront : front = []
    · exact ⟨"/", by simp [hfront, textOf]⟩
    · exact ⟨_, textOf_concat hfront c⟩
  obtain ⟨text, htext⟩ := htext
  rw [htext, String.toList_append, List.getLast?_append_of_ne_nil _ hc.text_ne.1]
  intro hlast
  exact hc.noSlash (List.mem_of_getLast? hlast)

theorem isAbsolute_eq_false_of_isName {name : String} (h : IsName name) :
    (⟨name⟩ : Path).isAbsolute = false := by
  rw [Bool.eq_false_iff]
  intro habsolute
  obtain ⟨rest, hrest⟩ := isAbsolute_iff.mp habsolute
  exact h.noSlash (by rw [show name.toList = '/' :: rest from hrest]; simp)

/-- A name is appended to a normal path. -/
theorem join_name {cs : List Component} (hplain : ∀ c ∈ cs, IsPlain c) {name : String}
    (hname : IsName name) :
    (ofComponents (.root :: cs)).join ⟨name⟩ =
      ofComponents (.root :: (cs ++ [.name name])) := by
  rw [join, isAbsolute_eq_false_of_isName hname]
  by_cases hne : cs = []
  · subst hne
    simp [ofComponents, textOf, Component.text]
  · have hlast := getLast?_textOf_root hplain hne
    have hempty : textOf (.root :: cs) ≠ "" := by
      intro heq
      have hlist := toList_textOf_root cs
      rw [heq] at hlist
      cases hlist
    simp [ofComponents, hlast, hempty, textOf_concat hne, Component.text]

theorem isAbsolute_join {base p : Path} (h : base.isAbsolute = true) :
    (base.join p).isAbsolute = true := by
  obtain ⟨rest, hrest⟩ := isAbsolute_iff.mp h
  unfold join
  split
  · assumption
  · split
    · exact isAbsolute_iff.mpr ⟨rest ++ p.text.toList, by simp [hrest]⟩
    · exact isAbsolute_iff.mpr ⟨rest ++ '/' :: p.text.toList, by simp [hrest]⟩

theorem join_join {base : Path} (h : base.isAbsolute = true) (p : Path) :
    base.join (base.join p) = base.join p := by
  rw [join, if_pos (isAbsolute_join h)]

theorem isNormal_absolutize {base : Path} (h : base.isAbsolute = true) (p : Path) :
    (absolutize base p).IsNormal := by
  unfold absolutize
  split
  · rename_i hp
    exact isNormal_normalize hp
  · exact isNormal_normalize (isAbsolute_join h)

/-- The slash in front of an absolute path belongs to no piece that carries a component. -/
theorem components_of_isAbsolute {p : Path} (h : p.isAbsolute = true) :
    p.components = .root :: componentsOfPieces p.pieces := by
  obtain ⟨rest, hrest⟩ := isAbsolute_iff.mp h
  rw [components_of_absolute hrest, pieces_eq, hrest, List.splitOn_cons_eq_if_modifyHead,
    if_pos (by simp)]
  rfl

theorem componentsOfPieces_append (front back : List (List Char)) :
    componentsOfPieces (front ++ back) =
      componentsOfPieces front ++ componentsOfPieces back :=
  List.filterMap_append

theorem componentsOfPieces_concat_nil (pieces : List (List Char)) :
    componentsOfPieces (pieces ++ [[]]) = componentsOfPieces pieces := by
  rw [componentsOfPieces_append]
  exact List.append_nil _

/-- The pieces of a relative path come behind those of the path it is taken from. -/
theorem componentsOfPieces_join (p : Path) {q : Path} (hq : q.isAbsolute = false) :
    componentsOfPieces (p.join q).pieces =
      componentsOfPieces p.pieces ++ componentsOfPieces q.pieces := by
  rw [join, hq, if_neg (by simp)]
  by_cases hempty : p.text = ""
  · have hp : p.pieces = [[]] := by
      rw [pieces_eq, hempty]
      rfl
    rw [if_pos (Or.inl hempty), pieces_eq, hempty, String.empty_append, ← pieces_eq, hp]
    rfl
  by_cases hslash : p.text.toList.getLast? = some '/'
  · obtain ⟨text, htext⟩ := List.getLast?_eq_some_iff.mp hslash
    have hsplit : (p.text ++ q.text).toList = text ++ '/' :: q.text.toList := by
      simp [htext]
    -- the slash at the end leaves one more piece, and nothing stands in it
    have hp : p.pieces = text.splitOn '/' ++ [[]] := by
      rw [pieces_eq, htext, List.splitOn_append_cons_self]
      rfl
    rw [if_pos (Or.inr hslash), pieces_eq, hsplit, List.splitOn_append_cons_self, hp,
      componentsOfPieces_append, componentsOfPieces_concat_nil, pieces_eq]
  · have hsplit : (p.text ++ "/" ++ q.text).toList =
        p.text.toList ++ '/' :: q.text.toList := by
      simp
    rw [if_neg (not_or.mpr ⟨hempty, hslash⟩), pieces_eq, hsplit,
      List.splitOn_append_cons_self, componentsOfPieces_append, pieces_eq, pieces_eq]

theorem components_join_of_isAbsolute {base p : Path} (hbase : base.isAbsolute = true)
    (hp : p.isAbsolute = false) :
    (base.join p).components = base.components ++ componentsOfPieces p.pieces := by
  rw [components_of_isAbsolute (isAbsolute_join hbase), componentsOfPieces_join base hp,
    components_of_isAbsolute hbase, List.cons_append]

/-- The components of a relative path come behind those of the path it is taken from. -/
theorem components_join {cs : List Component} (hcs : IsTail cs) {p : Path}
    (hp : p.isAbsolute = false) :
    ((ofComponents (.root :: cs)).join p).components =
      .root :: cs ++ componentsOfPieces p.pieces := by
  rw [components_join_of_isAbsolute (isAbsolute_ofComponents_root cs) hp, hcs.components]

end Path

end StylePrune
