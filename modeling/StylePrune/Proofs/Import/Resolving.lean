import StylePrune.Proofs.Import.Matching
import StylePrune.Proofs.Text.Runs

/-!
# Specifiers written by hand

Whoever writes an import writes the way to the style file: up from the folder of the
importing file and down again, or down from the root folder behind its alias.  Such a
specifier resolves to the path it was written for, whatever the two folders are, and the
search then answers with the style file unless a form of the path that is tried in front
is there too.
-/

namespace StylePrune.Import

open Component StylePrune.Path

/-! ## Ways -/

/-- The components of a path other than a `.` in front. -/
def steps (p : Path) : List Component :=
  p.components.filter (· ≠ .here)

/-- A relative specifier goes up from a folder as often as needed to come to a folder above
the target, and down to the target from there. -/
def LeadsTo (dir target : Path) (specifier : String) : Prop :=
  (['.', '/'] <+: specifier.toList ∨ ['.', '.', '/'] <+: specifier.toList) ∧
    ∃ shared left down, dir.components = shared ++ left ∧
      target.components = shared ++ down ∧
      steps ⟨specifier⟩ = List.replicate left.length .up ++ down

/-- A specifier that begins with the root alias goes down from the root folder to the
target. -/
def LeadsFromRoot (r : Resolution) (target : Path) (specifier : String) : Prop :=
  (specifier = r.rootAlias ∨ r.rootAlias.toList ++ ['/'] <+: specifier.toList) ∧
    target.components = r.root.components ++ steps ⟨specifier⟩

/-- The relative path that goes up by a number of folders and down by names. -/
def relativeText (climbs : Nat) (names : List String) : String :=
  (if climbs = 0 then "./" else String.join (List.replicate climbs "../")) ++
    String.intercalate "/" names

theorem steps_eq {p : Path} (h : p.isAbsolute = false) :
    steps p = componentsOfPieces p.pieces := by
  obtain ⟨cs, hcomponents, rfl, hplain⟩ := exists_components_of_relative h
  have hne : ∀ c ∈ componentsOfPieces p.pieces, decide (c ≠ .here) = true := by
    intro c hc
    cases hplain c hc <;> rfl
  rcases hcomponents with heq | heq
  · rw [steps, heq, List.filter_eq_self.mpr hne]
  · rw [steps, heq, List.filter_cons_of_neg (by simp), List.filter_eq_self.mpr hne]

/-! ## Following a way -/

theorem exists_names_of_plain {cs : List Component} (h : ∀ c ∈ cs, IsPlain c)
    (hup : .up ∉ cs) :
    ∃ names : List String, cs = names.map .name ∧ ∀ name ∈ names, IsName name := by
  induction cs with
  | nil => exact ⟨[], rfl, List.forall_mem_nil _⟩
  | cons c cs ih =>
      obtain ⟨hc, hcs⟩ := List.forall_mem_cons.mp h
      obtain ⟨names, rfl, hnames⟩ := ih hcs fun hmem => hup (List.mem_cons_of_mem _ hmem)
      cases hc with
      | up => exact (hup List.mem_cons_self).elim
      | @name n hn => exact ⟨n :: names, rfl, List.forall_mem_cons.mpr ⟨hn, hnames⟩⟩

/-- An absolute path without `..` is the root and names. -/
theorem exists_names {p : Path} (h : p.isAbsolute = true) (hup : .up ∉ p.components) :
    ∃ names : List String, p.components = .root :: names.map .name ∧
      ∀ name ∈ names, IsName name := by
  obtain ⟨rest, hrest⟩ := isAbsolute_iff.mp h
  have hcomponents := components_of_absolute hrest
  have hplain : ∀ c ∈ componentsOfPieces (rest.splitOn '/'), IsPlain c :=
    fun c hc => isPlain_of_mem_componentsOfPieces hc
  obtain ⟨names, hnames, hall⟩ := exists_names_of_plain hplain
    fun hmem => hup (hcomponents ▸ List.mem_cons_of_mem _ hmem)
  exact ⟨names, hnames ▸ hcomponents, hall⟩

/-- As many `..` as there are names at the end take the names back. -/
theorem foldl_pushComponent_ups (front : List Component) (names : List String) :
    (List.replicate names.length Component.up).foldl pushComponent
      ((names.map .name).reverse ++ front) = front := by
  induction names using List.reverseRecOn with
  | nil => rfl
  | append_singleton names name ih =>
      have hpush : pushComponent (((names ++ [name]).map .name).reverse ++ front) .up =
          (names.map .name).reverse ++ front := by
        simp [pushComponent]
      rw [List.length_append, List.length_singleton, List.replicate_succ, List.foldl_cons,
        hpush, ih]

theorem normalComponents_climb (shared left down : List String) :
    normalComponents (.root :: (shared ++ left).map .name ++
        (List.replicate left.length .up ++ down.map .name)) =
      .root :: (shared ++ down).map .name := by
  have hfront : (Component.root :: (shared ++ left).map Component.name).foldl
      pushComponent [] =
        (left.map .name).reverse ++ ((shared.map .name).reverse ++ [.root]) := by
    rw [List.foldl_cons, show pushComponent [] .root = [.root] from rfl,
      foldl_pushComponent_names]
    simp
  rw [normalComponents, List.foldl_append, hfront, List.foldl_append,
    foldl_pushComponent_ups, foldl_pushComponent_names]
  simp

/-- A folder without `..` above a file without them. -/
theorem exists_names_parent? {file dir : Path} (hfile : file.isAbsolute = true)
    (hup : .up ∉ file.components) (hdir : file.parent? = some dir) :
    ∃ names : List String, dir = ofComponents (.root :: names.map .name) ∧
      ∀ name ∈ names, IsName name := by
  obtain ⟨names, hcomponents, hnames⟩ := exists_names hfile hup
  rw [parent?, hcomponents] at hdir
  rcases List.eq_nil_or_concat' names with rfl | ⟨front, name, rfl⟩
  · cases hdir
  · refine ⟨front, ?_, fun n hn => hnames n (by simp [hn])⟩
    have hlast : (Component.root :: (front ++ [name]).map Component.name).getLast? =
        some (.name name) := by
      rw [List.map_append, ← List.cons_append]
      exact List.getLast?_concat
    rw [hlast] at hdir
    obtain rfl := Option.some.inj hdir
    rw [List.map_append, ← List.cons_append]
    exact congrArg ofComponents List.dropLast_concat

theorem isRooted_iff {r : Resolution} {specifier : String} :
    r.isRooted specifier = true ↔
      specifier = r.rootAlias ∨ r.rootAlias.toList ++ ['/'] <+: specifier.toList := by
  unfold Resolution.isRooted
  split
  · rename_i rest hrest
    have heq := Text.eq_append_of_isPrefixOf? hrest
    rw [decide_eq_true_iff, ← String.toList_inj, heq, List.append_right_eq_self,
      List.prefix_append_right_inj, List.singleton_prefix_iff_head?_eq_some]
  · rename_i hnone
    have hprefix := Text.isPrefixOf?_eq_none_iff.mp hnone
    refine iff_of_false (by simp)
      (not_or.mpr ⟨?_, fun h => hprefix ((List.prefix_append _ _).trans h)⟩)
    rintro rfl
    exact hprefix (List.prefix_refl _)

/-- No alias for the root folder begins a relative specifier. -/
theorem isRooted_eq_false {r : Resolution} (halias : IsName r.rootAlias)
    {specifier : String}
    (h : ['.', '/'] <+: specifier.toList ∨ ['.', '.', '/'] <+: specifier.toList) :
    r.isRooted specifier = false := by
  have hrest : ∃ dots rest, (dots = ['.'] ∨ dots = ['.', '.']) ∧
      specifier.toList = dots ++ '/' :: rest := by
    rcases h with ⟨rest, hrest⟩ | ⟨rest, hrest⟩
    · exact ⟨_, rest, Or.inl rfl, hrest.symm⟩
    · exact ⟨_, rest, Or.inr rfl, hrest.symm⟩
  obtain ⟨dots, rest, hdots, hspecifier⟩ := hrest
  have hname : r.rootAlias.toList ≠ dots := by
    rintro rfl
    rcases hdots with hdots | hdots
    · exact halias.ne_here (String.toList_inj.mp hdots)
    · exact halias.ne_up (String.toList_inj.mp hdots)
  rw [Bool.eq_false_iff, ne_eq, isRooted_iff, hspecifier, not_or]
  constructor
  · rintro rfl
    exact halias.noSlash (by simp [hspecifier])
  · rintro ⟨back, hback⟩
    -- both fronts end in front of the first slash
    have hrun : ∀ {front : List Char}, '/' ∉ front → ∀ c ∈ front, (c != '/') = true := by
      intro front hfront c hc
      simpa using fun heq : c = '/' => hfront (heq ▸ hc)
    have hdotsSlash : '/' ∉ dots := by rcases hdots with rfl | rfl <;> decide
    have hfirst := congrArg (List.takeWhile (· != '/')) hback
    rw [List.append_assoc, Text.takeWhile_append_eq (hrun halias.noSlash) (by simp),
      Text.takeWhile_append_eq (hrun hdotsSlash) (by simp)] at hfirst
    exact hname hfirst

theorem components_names {names : List String} (h : ∀ name ∈ names, IsName name) :
    (ofComponents (.root :: names.map .name)).components = .root :: names.map .name :=
  (IsTail.below h).components

theorem ofComponents_components {p : Path} (h : p.IsNormal) :
    ofComponents p.components = p := by
  obtain ⟨cs, rfl, hcs⟩ := h.exists_tail
  rw [hcs.components]

theorem LeadsTo.resolve {r : Resolution} (halias : IsName r.rootAlias)
    {file dir target : Path} (hfile : file.isAbsolute = true) (hup : .up ∉ file.components)
    (hdir : file.parent? = some dir) (htarget : target.IsNormal)
    (htargetUp : .up ∉ target.components) {specifier : String}
    (h : LeadsTo dir target specifier) : r.resolve file specifier = target := by
  obtain ⟨hbegins, shared, left, down, hshared, hdown, hsteps⟩ := h
  obtain ⟨names, rfl, hnames⟩ := exists_names_parent? hfile hup hdir
  obtain ⟨targetNames, htargetNames, -⟩ := exists_names htarget.absolute htargetUp
  have hrelative : (⟨specifier⟩ : Path).isAbsolute = false := by
    rw [isAbsolute, decide_eq_false_iff_not]
    rcases hbegins with ⟨rest, hrest⟩ | ⟨rest, hrest⟩ <;> simp [← hrest]
  rw [components_names hnames] at hshared
  rw [steps_eq hrelative] at hsteps
  cases shared with
  | nil =>
      -- the way down would begin at the root
      have hroot : .root ∈ componentsOfPieces (⟨specifier⟩ : Path).pieces := by
        rw [hsteps, ← List.nil_append down, ← hdown, htargetNames]
        simp
      rw [pieces_eq] at hroot
      cases isPlain_of_mem_componentsOfPieces hroot
  | cons c shared =>
      obtain ⟨rfl, hrest⟩ := List.cons.inj hshared
      obtain ⟨s, l, rfl, rfl, rfl⟩ := List.map_eq_append_iff.mp hrest
      rw [htargetNames, List.cons_append, List.cons.injEq] at hdown
      obtain ⟨s', d, rfl, hs, rfl⟩ := List.map_eq_append_iff.mp hdown.2
      obtain rfl : s' = s := (List.map_inj_right fun _ _ h => Component.name.inj h).mp hs
      rw [Resolution.resolve, isRooted_eq_false halias hbegins, hdir, if_neg (by simp),
        Option.getD_some, Path.normalize, components_join (.below hnames) hrelative, hsteps,
        List.length_map, normalComponents_climb, ← htargetNames]
      exact ofComponents_components htarget

theorem LeadsFromRoot.resolve {r : Resolution} (hroot : r.root.IsNormal)
    (halias : IsName r.rootAlias) {file target : Path} (htarget : target.IsNormal)
    {specifier : String} (h : LeadsFromRoot r target specifier) :
    r.resolve file specifier = target := by
  obtain ⟨hbegins, hdown⟩ := h
  obtain ⟨cs, hcs, htail⟩ := hroot.exists_tail
  have hrelative : (⟨specifier⟩ : Path).isAbsolute = false := by
    obtain ⟨a, as, has⟩ := List.exists_cons_of_ne_nil
      fun hnil : r.rootAlias.toList = [] => halias.ne_empty (String.toList_inj.mp hnil)
    have hne : '/' ≠ a := by
      rintro rfl
      exact halias.noSlash (by simp [has])
    rw [isAbsolute, decide_eq_false_iff_not]
    rcases hbegins with rfl | ⟨rest, hrest⟩
    · simp [has, hne.symm]
    · simp [← hrest, has, hne.symm]
  have hcomponents : (r.root.join ⟨specifier⟩).components = target.components := by
    rw [hdown, steps_eq hrelative, hcs, components_join htail hrelative, htail.components]
  rw [Resolution.resolve, isRooted_iff.mpr hbegins, if_pos rfl, Path.normalize, hcomponents]
  exact htarget.fixed

/-! ## Ways as they are printed -/

theorem componentsOfPieces_climbs (climbs : ℕ) (text : List Char) :
    componentsOfPieces
      (((String.join (List.replicate climbs "../")).toList ++ text).splitOn '/') =
      List.replicate climbs .up ++ componentsOfPieces (text.splitOn '/') := by
  induction climbs with
  | zero => simp
  | succ climbs ih =>
      have hlist : (String.join (List.replicate (climbs + 1) "../")).toList ++ text =
          ['.', '.'] ++ '/' ::
            ((String.join (List.replicate climbs "../")).toList ++ text) := by
        simp [List.replicate_succ]
      rw [hlist, List.splitOn_append_cons_self, List.replicate_succ, List.cons_append, ← ih]
      rfl

/-- A printed way leads where it was printed for. -/
theorem leadsTo_relativeText {dir target : Path} {shared left : List Component}
    {names : List String} (hdir : dir.components = shared ++ left)
    (htarget : target.components = shared ++ names.map .name)
    (hnames : ∀ name ∈ names, IsName name) :
    LeadsTo dir target (relativeText left.length names) := by
  have hplain : ∀ c ∈ names.map Component.name, IsPlain c := by
    intro c hc
    obtain ⟨name, hname, rfl⟩ := List.mem_map.mp hc
    exact .name (hnames name hname)
  have hdown : componentsOfPieces ((String.intercalate "/" names).toList.splitOn '/') =
      names.map .name := by
    rw [← componentsOfPieces_intercalate hplain, String.toList_intercalate, List.map_map]
    rfl
  by_cases hleft : left.length = 0
  · have hlist : (relativeText left.length names).toList =
        ['.'] ++ '/' :: (String.intercalate "/" names).toList := by
      simp [relativeText, hleft]
    refine ⟨Or.inl ⟨_, hlist.symm⟩, shared, left, _, hdir, htarget, ?_⟩
    rw [steps_eq (by simp [isAbsolute, hlist]), pieces_eq, hlist,
      List.splitOn_append_cons_self, hleft, ← hdown]
    rfl
  · obtain ⟨climbs, hclimbs⟩ := Nat.exists_eq_succ_of_ne_zero hleft
    have hlist : (relativeText left.length names).toList =
        (String.join (List.replicate left.length "../")).toList ++
          (String.intercalate "/" names).toList := by
      simp [relativeText, hleft]
    have hbegins : ['.', '.', '/'] <+: (relativeText left.length names).toList := by
      rw [hlist, hclimbs, List.replicate_succ]
      exact ⟨(String.join (List.replicate climbs "../")).toList ++
        (String.intercalate "/" names).toList, by simp⟩
    obtain ⟨rest, hrest⟩ := hbegins
    refine ⟨Or.inr ⟨rest, hrest⟩, shared, left, _, hdir, htarget, ?_⟩
    rw [steps_eq (by simp [isAbsolute, ← hrest]), pieces_eq, hlist,
      componentsOfPieces_climbs, hdown]

/-! ## The style file behind a specifier -/

/-- What a form of a path that ends with a name has at its end. -/
def Form.ending (name : String) : Form → List Component
  | .exact => [.name name]
  | .extended ext => [.name (name ++ ("." ++ ext))]
  | .index ext => [.name name, .name ("index." ++ ext)]

theorem Form.ending_injective (name : String) : Function.Injective (Form.ending name) := by
  have hne : ∀ ext, name ≠ name ++ ("." ++ ext) := by
    intro ext heq
    have hlength := congrArg String.length heq
    simp at hlength
  intro f g h
  cases f <;> cases g <;> simp_all [Form.ending]

theorem components_path {base : Path} {lead front : List Component} {name : String}
    (h : EndsIn base lead front name) {f : Form} (hext : ∀ ext ∈ f.ext?, '/' ∉ ext.toList) :
    (f.path base).components = lead ++ (front ++ f.ending name) := by
  cases f with
  | exact => exact h.components
  | extended ext => exact (endsIn_path_extended h (hext ext rfl)).components
  | index ext =>
      rw [(endsIn_path_index h (hext ext rfl)).components]
      simp [Form.ending]

/-! ### Imports of the folder at the root -/

theorem extendsRoot_fileName? {ext name : String} (hslash : '/' ∉ ext.toList)
    (h : ((Form.extended ext).path ⟨"/"⟩).fileName? = some name) : name = "." ++ ext := by
  have htext : ((Form.extended ext).path ⟨"/"⟩).text.toList = '/' :: '.' :: ext.toList := by
    simp [Form.path]
  have hsplit : ('.' :: ext.toList).splitOn '/' = ['.' :: ext.toList] :=
    List.splitOn_eq_singleton (by simpa using hslash)
  have hmem := List.mem_of_getLast? (fileName?_eq_some_iff.mp h)
  rw [components_of_absolute htext, hsplit] at hmem
  obtain ⟨piece, hpiece, hname⟩ :=
    List.mem_filterMap.mp ((List.mem_cons.mp hmem).resolve_left Component.noConfusion)
  obtain rfl := List.mem_singleton.mp hpiece
  unfold ofPiece? at hname
  split at hname
  · cases hname
  · split at hname
    · cases hname
    · rw [← Component.name.inj (Option.some.inj hname), ← String.toList_inj]
      simp

theorem endsIn_index_root {ext : String} (hslash : '/' ∉ ext.toList) :
    EndsIn ((Form.index ext).path ⟨"/"⟩) [.root] [] ("index." ++ ext) := by
  refine ⟨.root, List.forall_mem_nil _, isName_index hslash, ?_⟩
  have hrelative : (⟨"index." ++ ext⟩ : Path).isAbsolute = false := by simp [isAbsolute]
  rw [Form.path, Path.join, hrelative, if_neg (by simp), if_pos (by decide)]
  simp [ofComponents, textOf, Component.text]

theorem fileName?_of_same {p q : Path} (h : p.same q = true) :
    p.fileName? = q.fileName? := by
  have hcomponents : p.components = q.components := of_decide_eq_true h
  rw [fileName?, fileName?, hcomponents]

theorem Form.Denotes.same_root_eq_false {style : Path} {f g : Form}
    (h : f.Denotes ⟨"/"⟩ style) (hbefore : g.TriedBefore f)
    (hext : ∀ ext ∈ g.ext?, '/' ∉ ext.toList) : (g.path ⟨"/"⟩).same style = false := by
  obtain ⟨hstyle, hsame⟩ := h
  rw [Bool.eq_false_iff]
  intro hgsame
  have hname := (fileName?_of_same hsame).trans (fileName?_of_same hgsame).symm
  cases f with
  | exact => exact hbefore
  | extended e =>
      -- a name that begins with its only dot has no extension
      obtain ⟨-, hslash⟩ := notMem_extension (hstyle e rfl)
      obtain ⟨stem, hstem, -, hstemName⟩ := extension?_eq_some_iff.mp (hstyle e rfl)
      rw [← fileName?_of_same hsame] at hstemName
      have hlist := congrArg String.length (extendsRoot_fileName? hslash hstemName)
      simp at hlist
      exact hstem hlist
  | index e =>
      obtain ⟨-, hslash⟩ := notMem_extension (hstyle e rfl)
      rw [(endsIn_index_root hslash).fileName?] at hname
      cases g with
      | exact =>
          have hroot : (⟨"/"⟩ : Path).fileName? = none := by decide
          exact absurd hname (by simp [Form.path, hroot])
      | extended x =>
          have hlist := congrArg String.toList
            (extendsRoot_fileName? (hext x rfl) hname.symm)
          simp at hlist
      | index x =>
          rw [(endsIn_index_root (hext x rfl)).fileName?, Option.some.injEq,
            String.append_right_inj]
            at hname
          have hlt : x < e := hbefore
          exact (hname ▸ hlt).false

/-- No form that is tried before the one in which an import means a style file is that
file. -/
theorem Form.Denotes.same_eq_false {target style : Path} (htarget : target.IsNormal)
    (hup : .up ∉ target.components) {f g : Form} (h : f.Denotes target style)
    (hbefore : g.TriedBefore f) (hext : ∀ ext ∈ g.ext?, '/' ∉ ext.toList) :
    (g.path target).same style = false := by
  cases hname : target.fileName? with
  | none =>
      obtain ⟨names, hnames, -⟩ := exists_names htarget.absolute hup
      rcases List.eq_nil_or_concat' names with rfl | ⟨front, last, rfl⟩
      · obtain rfl : ⟨"/"⟩ = target := by
          rw [← ofComponents_components htarget, hnames]
          rfl
        exact h.same_root_eq_false hbefore hext
      · have hlast : target.fileName? = some last := by
          rw [fileName?_eq_some_iff, hnames, List.map_append, ← List.cons_append]
          exact List.getLast?_concat
        rw [hname] at hlast
        cases hlast
  | some name =>
      obtain ⟨lead, front, hends⟩ := exists_endsIn htarget.fixed hname
      have hf := components_path hends (f := f) fun ext hext =>
        (notMem_extension (h.1 ext hext)).2
      have hg := components_path hends hext
      rw [Bool.eq_false_iff]
      intro hgsame
      have hsame : (g.path target).components = (f.path target).components :=
        (of_decide_eq_true hgsame).trans (of_decide_eq_true h.2).symm
      rw [hf, hg, List.append_right_inj, List.append_right_inj] at hsame
      obtain rfl := Form.ending_injective name hsame
      exact hbefore.asymm hbefore

theorem Form.triedBefore_total (f g : Form) :
    f.TriedBefore g ∨ f = g ∨ g.TriedBefore f := by
  cases f with
  | exact =>
      cases g with
      | exact => exact Or.inr (Or.inl rfl)
      | extended | index => exact Or.inl trivial
  | extended x =>
      cases g with
      | exact => exact Or.inr (Or.inr trivial)
      | extended y => exact (lt_trichotomy x y).imp_right (Or.imp_left (congrArg _))
      | index y => exact (le_or_gt x y).imp_right Or.inr
  | index x =>
      cases g with
      | exact => exact Or.inr (Or.inr trivial)
      | extended y => exact (lt_or_ge x y).imp_right Or.inr
      | index y => exact (lt_trichotomy x y).imp_right (Or.imp_left (congrArg _))

/-- The search answers with a style file that an import means unless another form is found
before it. -/
theorem Form.Denotes.matchStyle?_iff {target style : Path} (htarget : target.IsNormal)
    (hup : .up ∉ target.components) {form : Form} (h : form.Denotes target style)
    {styles : List Path} (hstyle : style ∈ styles) :
    (∃ p, matchStyle? target styles = some p ∧ p.same style = true) ↔
      ∀ earlier : Form, earlier.TriedBefore form → ¬earlier.FoundIn styles target := by
  constructor
  · rintro ⟨p, hp, hsame⟩
    obtain ⟨found, rfl, hfound, hfirst⟩ := matchStyle?_eq_some_iff.mp hp
    rcases found.triedBefore_total form with hbefore | rfl | hbefore
    · have hext : ∀ ext ∈ found.ext?, '/' ∉ ext.toList := by
        intro ext hext
        obtain ⟨other, -, hother⟩ := mem_extensions.mp (hfound.1 ext hext)
        exact (notMem_extension hother).2
      rw [h.same_eq_false htarget hup hbefore hext] at hsame
      cases hsame
    · exact hfirst
    · exact (hfirst form hbefore (h.foundIn hstyle)).elim
  · intro hfirst
    exact ⟨form.path target,
      matchStyle?_eq_some_iff.mpr ⟨form, rfl, h.foundIn hstyle, hfirst⟩, h.2⟩

/-- An import written by hand resolves to the path it was written for, and the search for
that path finds the style file that is meant unless a form tried before it is there. -/
theorem resolve_eq_and_matchStyle?_iff {r : Resolution} (hroot : r.root.IsNormal)
    (halias : IsName r.rootAlias) {file : Path} (hfile : file.isAbsolute = true)
    (hfileUp : .up ∉ file.components) {target style : Path} (htarget : target.IsNormal)
    (htargetUp : .up ∉ target.components) {form : Form} (hform : form.Denotes target style)
    {specifier : String}
    (hspecifier : (∃ dir, file.parent? = some dir ∧ LeadsTo dir target specifier) ∨
      LeadsFromRoot r target specifier) :
    r.resolve file specifier = target ∧
      ∀ styles, style ∈ styles →
        ((∃ p, matchStyle? (r.resolve file specifier) styles = some p ∧
          p.same style = true) ↔
          ∀ earlier : Form, earlier.TriedBefore form → ¬earlier.FoundIn styles target) := by
  have hresolve : r.resolve file specifier = target := by
    rcases hspecifier with ⟨dir, hdir, hleads⟩ | hleads
    · exact hleads.resolve halias hfile hfileUp hdir htarget htargetUp
    · exact hleads.resolve hroot halias htarget
  refine ⟨hresolve, fun styles hstyle => ?_⟩
  rw [hresolve]
  exact hform.matchStyle?_iff htarget htargetUp hstyle

/-- A screen one folder below imports a style file from above, and by the alias. -/
theorem resolve_eq_and_matchStyle?_iff_screen :
    let r : Resolution := ⟨⟨"/proj"⟩, "app"⟩
    let file : Path := ⟨"/proj/app/screens/Home.tsx"⟩
    let style : Path := ⟨"/proj/app/Button.styles.ts"⟩
    (∃ p, matchStyle? (r.resolve file "../Button.styles")
      [⟨"/proj/app/a.jsx"⟩, style] = some p ∧
      p.same style = true) ∧
    r.resolve file "app/Button.styles" = ⟨"/proj/app/Button.styles"⟩ := by
  intro r file style
  have hroot : r.root.IsNormal := ⟨by decide +kernel, by decide +kernel⟩
  have htarget : (⟨"/proj/app/Button.styles"⟩ : Path).IsNormal :=
    ⟨by decide +kernel, by decide +kernel⟩
  have hform : (Form.extended "ts").Denotes ⟨"/proj/app/Button.styles"⟩ style := by
    refine ⟨fun ext hext => ?_, by decide +kernel⟩
    obtain rfl : "ts" = ext := Option.some.inj hext
    decide +kernel
  have hclimb : LeadsTo ⟨"/proj/app/screens"⟩
      ⟨"/proj/app/Button.styles"⟩ "../Button.styles" :=
    @leadsTo_relativeText _ _ [.root, .name "proj", .name "app"] [.name "screens"]
      ["Button.styles"]
      (by decide +kernel) (by decide +kernel) (by decide)
  have halias : LeadsFromRoot r ⟨"/proj/app/Button.styles"⟩ "app/Button.styles" :=
    ⟨Or.inr (by decide), by decide +kernel⟩
  have hfile : file.isAbsolute = true := by decide
  have hfound := (resolve_eq_and_matchStyle?_iff hroot (by decide) hfile (by decide +kernel)
    htarget (by decide +kernel) hform (Or.inl ⟨_, by decide +kernel, hclimb⟩)).2
    [⟨"/proj/app/a.jsx"⟩, style] (by simp)
  refine ⟨hfound.mpr fun earlier hbefore hearlier => ?_, ?_⟩
  · obtain ⟨hmem, hany⟩ := foundIn_iff_mem_all.mp hearlier
    have hall : Form.all (extensions [⟨"/proj/app/a.jsx"⟩, style]) =
        [.exact, .extended "jsx", .index "jsx", .extended "ts", .index "ts"] := by
      decide +kernel
    simp only [hall, List.mem_cons, List.not_mem_nil, or_false] at hmem
    rcases hmem with rfl | rfl | rfl | rfl | rfl
    · exact absurd hany (by decide +kernel)
    · exact absurd hany (by decide +kernel)
    · exact absurd hany (by decide +kernel)
    · have hlt : "ts" < "ts" := hbefore
      exact hlt.false
    · exact absurd hany (by decide +kernel)
  · exact (resolve_eq_and_matchStyle?_iff hroot (by decide) hfile
      (by decide +kernel) htarget (by decide +kernel) hform (Or.inr halias)).1

end StylePrune.Import
