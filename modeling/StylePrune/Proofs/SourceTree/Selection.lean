import StylePrune.Proofs.Path.Ending
import StylePrune.Proofs.SourceTree.Load

/-!
# Which files are loaded

A loaded tree holds the regular files below a folder that are not too deep and that no
pattern describes, neither them nor a folder on the way to them (`load_selected`).  Of
the list of patterns only matters which patterns it holds.  A path below a folder tells
the names on the way to it, however the folder's own path is written, so no two files of
a tree share a path.
-/

namespace StylePrune

open Component

namespace SourceTree

variable {reader : PatternReader}

/-! ## Patterns -/

/-- Whether a pattern of a list describes a text. -/
def Describes (reader : PatternReader) (patterns : List String) (text : String) : Prop :=
  ∃ pattern ∈ patterns, ∃ test, reader pattern = .ok test ∧ test text = true

/-- All texts of a list are patterns. -/
def AllRead (reader : PatternReader) (patterns : List String) : Prop :=
  ∀ pattern ∈ patterns, ∃ test, reader pattern = .ok test

theorem mem_of_readPatterns {patterns : List String} {tests : List (String → Bool)}
    (h : readPatterns patterns reader = .ok tests) {test : String → Bool} :
    test ∈ tests ↔ ∃ pattern ∈ patterns, reader pattern = .ok test := by
  induction patterns generalizing tests with
  | nil =>
      obtain rfl : [] = tests := Except.ok.inj h
      simp
  | cons pattern patterns ih =>
      rw [readPatterns] at h
      split at h
      · cases h
      · rename_i first hfirst
        split at h
        · cases h
        · rename_i rest hrest
          obtain rfl := Except.ok.inj h
          simp [ih hrest, hfirst, eq_comm]

theorem exists_readPatterns_iff {patterns : List String} :
    (∃ tests, readPatterns patterns reader = .ok tests) ↔ AllRead reader patterns := by
  induction patterns with
  | nil => exact iff_of_true ⟨[], rfl⟩ (List.forall_mem_nil _)
  | cons pattern patterns ih =>
      rw [AllRead, List.forall_mem_cons, ← AllRead, ← ih, readPatterns]
      cases hpattern : reader pattern with
      | error fault => simp
      | ok test => cases hrest : readPatterns patterns reader <;> simp

/-- A place is admitted if no pattern describes its text or the name at its end. -/
theorem isAdmitted_iff {patterns : List String} {tests : List (String → Bool)}
    (h : readPatterns patterns reader = .ok tests) (place : List String) :
    isAdmitted tests place = true ↔ ¬Describes reader patterns (relativeText place) ∧
      ¬Describes reader patterns (place.getLast?.getD "") := by
  have hany : ∀ text, (∃ test ∈ tests, test text = true) ↔
      Describes reader patterns text := by
    intro text
    simp only [mem_of_readPatterns h, Describes]
    constructor
    · rintro ⟨test, ⟨pattern, hmem, hread⟩, htext⟩
      exact ⟨pattern, hmem, test, hread, htext⟩
    · rintro ⟨pattern, hmem, test, hread, htext⟩
      exact ⟨test, ⟨pattern, hmem, hread⟩, htext⟩
  rw [← hany, ← hany, isAdmitted, Bool.not_eq_true', Bool.eq_false_iff, ne_eq,
    List.any_eq_true, ← not_or, not_iff_not]
  simp only [Bool.or_eq_true, ← exists_or, ← and_or_left]

/-- Lists of the same patterns admit the same places. -/
theorem isAdmitted_congr {patterns patterns' : List String}
    {tests tests' : List (String → Bool)} (h : readPatterns patterns reader = .ok tests)
    (h' : readPatterns patterns' reader = .ok tests')
    (hsame : ∀ pattern, pattern ∈ patterns' ↔ pattern ∈ patterns) :
    isAdmitted tests' = isAdmitted tests := by
  funext place
  rw [Bool.eq_iff_iff, isAdmitted_iff h, isAdmitted_iff h', Describes, Describes, Describes,
    Describes]
  simp only [hsame]

/-! ## Paths below a folder -/

/-- The names on the way to a place come behind the components of the folder. -/
theorem components_pathAt (root : Path) {names : List String}
    (hnames : ∀ name ∈ names, IsName name) :
    (pathAt root names).components = root.components ++ names.map .name := by
  induction names generalizing root with
  | nil => simp [pathAt]
  | cons name names ih =>
      obtain ⟨hname, hrest⟩ := List.forall_mem_cons.mp hnames
      have hpath : pathAt root (name :: names) = pathAt (root.join ⟨name⟩) names := rfl
      rw [hpath, ih _ hrest, Path.components_join_name root hname]
      simp

theorem eq_of_pathAt_same {root : Path} {names names' : List String}
    (hnames : ∀ name ∈ names, IsName name) (hnames' : ∀ name ∈ names', IsName name)
    (h : (pathAt root names).same (pathAt root names') = true) : names = names' := by
  have hcomponents : (pathAt root names).components = (pathAt root names').components :=
    of_decide_eq_true h
  rw [components_pathAt root hnames, components_pathAt root hnames'] at hcomponents
  have hinjective : Function.Injective Component.name :=
    fun _ _ heq => Component.name.inj heq
  exact hinjective.list_map (List.append_cancel_left hcomponents)

/-! ## Loading -/

/-- The regular files to be loaded: reached through folders only, not too deep, and
neither they nor a folder on the way to them described by a pattern. -/
structure Selects (reader : PatternReader) (selection : Selection) (folder : Node)
    (names : List String) (bytes : ByteArray) : Prop where
  ne_nil : names ≠ []
  length_le : names.length ≤ selection.maxDepth
  get?_eq : folder.get? names = some (.file bytes)
  notIgnored : ∀ front name back, names = front ++ name :: back →
    ¬Describes reader selection.ignore (relativeText (front ++ [name])) ∧
      ¬Describes reader selection.ignore name

theorem reaches_iff_selects {selection : Selection} {tests : List (String → Bool)}
    {folder : Node} {names : List String} {bytes : ByteArray}
    (h : readPatterns selection.ignore reader = .ok tests) :
    folder.Reaches (isAdmitted tests) selection.maxDepth [] names bytes ↔
      Selects reader selection folder names bytes := by
  have hadmits : ∀ front name, isAdmitted tests ([] ++ front ++ [name]) = true ↔
      ¬Describes reader selection.ignore (relativeText (front ++ [name])) ∧
        ¬Describes reader selection.ignore name := by
    intro front name
    rw [isAdmitted_iff h]
    simp
  constructor
  · intro hreach
    refine ⟨hreach.ne_nil, hreach.length_le, hreach.get?_eq, ?_⟩
    intro front name back hsplit
    exact (hadmits front name).mp (hreach.admits front name back hsplit)
  · intro hselected
    refine ⟨hselected.ne_nil, hselected.length_le, hselected.get?_eq, ?_⟩
    intro front name back hsplit
    exact (hadmits front name).mpr (hselected.notIgnored front name back hsplit)

theorem mem_files_iff_selects {selection : Selection} {tests : List (String → Bool)}
    {folder : Node} (hnamed : folder.WellNamed)
    (h : readPatterns selection.ignore reader = .ok tests) {place : List String}
    {bytes : ByteArray} :
    (place, bytes) ∈ folder.files (isAdmitted tests) selection.maxDepth [] ↔
      Selects reader selection folder place bytes := by
  rw [Node.mem_files_iff hnamed]
  simp [reaches_iff_selects h]

theorem load_of_readPatterns {disk : Disk} {selection : Selection} {root : Path}
    {entries : List (String × Node)} {tests : List (String → Bool)}
    (hroot : disk.node root = .ok (.folder entries))
    (htests : readPatterns selection.ignore reader = .ok tests) :
    load disk selection root reader = .ok (PathMap.ofList
      (((Node.folder entries).files (isAdmitted tests) selection.maxDepth []).map
        fun (place, bytes) => (pathAt root place, Text.decodeLenient bytes))) := by
  rw [load, hroot]
  simp only [htests]

/-- The files of a loaded tree are the selected ones. -/
theorem mem_load_iff {selection : Selection} {root : Path} {entries : List (String × Node)}
    {tests : List (String → Bool)} (hnamed : (Node.folder entries).WellNamed)
    (htests : readPatterns selection.ignore reader = .ok tests) {path : Path}
    {text : List Char} :
    (path, text) ∈ PathMap.ofList
        (((Node.folder entries).files (isAdmitted tests) selection.maxDepth []).map
          fun (place, bytes) => (pathAt root place, Text.decodeLenient bytes)) ↔
      ∃ names bytes, Selects reader selection (.folder entries) names bytes ∧
        path = pathAt root names ∧ text = Text.decodeLenient bytes := by
  have hfile : ∀ {place bytes},
      (place, bytes) ∈ (Node.folder entries).files (isAdmitted tests)
      selection.maxDepth [] ↔ Selects reader selection (.folder entries) place bytes :=
    mem_files_iff_selects hnamed htests
  rw [PathMap.mem_ofList_iff]
  · constructor
    · intro h
      obtain ⟨⟨place, bytes⟩, hmem, heq⟩ := List.mem_map.mp h
      obtain ⟨rfl, rfl⟩ := Prod.mk.inj heq
      exact ⟨place, bytes, hfile.mp hmem, rfl, rfl⟩
    · rintro ⟨names, bytes, hselected, rfl, rfl⟩
      exact List.mem_map.mpr ⟨(names, bytes), hfile.mpr hselected, rfl⟩
  · -- the path of a file tells its place, and at a place stands one file
    intro a ha b hb hsame
    obtain ⟨⟨place, bytes⟩, hmem, rfl⟩ := List.mem_map.mp ha
    obtain ⟨⟨place', bytes'⟩, hmem', rfl⟩ := List.mem_map.mp hb
    have hget := (hfile.mp hmem).get?_eq
    have hget' := (hfile.mp hmem').get?_eq
    obtain rfl := eq_of_pathAt_same (hnamed.isName_of_get? hget)
      (hnamed.isName_of_get? hget') hsame
    rw [hget] at hget'
    obtain rfl := Node.file.inj (Option.some.inj hget')
    rfl

/-- Of the list of patterns only matters which patterns it holds. -/
theorem load_congr {selection : Selection} {patterns : List String}
    (hread : AllRead reader selection.ignore)
    (hsame : ∀ pattern, pattern ∈ patterns ↔ pattern ∈ selection.ignore) (disk : Disk)
    (root : Path) :
    load disk ⟨patterns, selection.maxDepth⟩ root reader =
      load disk selection root reader := by
  have hread' : AllRead reader patterns :=
    fun pattern hmem => hread pattern ((hsame pattern).mp hmem)
  obtain ⟨tests, htests⟩ := exists_readPatterns_iff.mpr hread
  obtain ⟨tests', htests'⟩ := exists_readPatterns_iff.mpr hread'
  rw [load, load, htests, htests']
  simp only [isAdmitted_congr htests htests' hsame]

theorem exists_load_error {selection : Selection} (h : ¬AllRead reader selection.ignore)
    (disk : Disk) (root : Path) : ∃ e, load disk selection root reader = .error e := by
  rw [load]
  split
  · exact ⟨_, rfl⟩
  · cases htests : readPatterns selection.ignore reader with
    | error e => exact ⟨e, rfl⟩
    | ok tests => exact (h (exists_readPatterns_iff.mp ⟨tests, htests⟩)).elim
  · exact ⟨_, rfl⟩

/-- Loading a folder maps the paths of the selected files to their texts.  Neither the
order nor the repetition of patterns changes anything, and with a text among them that is
no pattern nothing is loaded from any disk.  This is so for any reader of patterns. -/
theorem load_selected (reader : PatternReader) (disk : Disk) (selection : Selection)
    (root : Path) :
    (∀ entries, disk.node root = .ok (.folder entries) → (Node.folder entries).WellNamed →
      AllRead reader selection.ignore →
        ∃ tree : SourceTree, load disk selection root reader = .ok tree ∧ tree.Sorted ∧
          ∀ path text, (path, text) ∈ tree ↔
            ∃ names bytes, Selects reader selection (.folder entries) names bytes ∧
              path = pathAt root names ∧ text = Text.decodeLenient bytes) ∧
      (AllRead reader selection.ignore → ∀ patterns,
        (∀ pattern, pattern ∈ patterns ↔ pattern ∈ selection.ignore) →
          load disk ⟨patterns, selection.maxDepth⟩ root reader =
            load disk selection root reader) ∧
        (∀ pattern ∈ selection.ignore, (∀ test, reader pattern ≠ .ok test) →
          ∃ e, load disk selection root reader = .error e) := by
  refine ⟨fun entries hroot hnamed hread => ?_, fun hread patterns hsame => ?_,
    fun pattern hmem hfault => ?_⟩
  · obtain ⟨tests, htests⟩ := exists_readPatterns_iff.mpr hread
    exact ⟨_, load_of_readPatterns hroot htests, PathMap.sorted_ofList _,
      fun path text => mem_load_iff hnamed htests⟩
  · exact load_congr hread hsame disk root
  · refine exists_load_error (fun hread => ?_) disk root
    obtain ⟨test, htest⟩ := hread pattern hmem
    exact hfault test htest

/-! ## A nested folder -/

/-- A folder with a file, a link to it, a folder to be ignored, and a folder that holds a
file and another one too deep. -/
def nestedEntries : List (String × Node) :=
  let file : Node := .file (Text.encode ['x'])
  [("a", file), ("l", .link ⟨"a"⟩), ("skip", .folder [("b", file)]),
    ("s", .folder [("c", file), ("d", .folder [("e", file)])])]

theorem wellNamed_nestedEntries : (Node.folder nestedEntries).WellNamed := by
  have hfile := Node.wellNamed_file (Text.encode ['x'])
  have hone : ∀ name, IsName name →
      (Node.folder [(name, .file (Text.encode ['x']))]).WellNamed := by
    intro name hname
    exact Node.wellNamed_folder (by simp) (List.forall_mem_singleton.mpr hname)
      (List.forall_mem_singleton.mpr hfile)
  have htwo : (Node.folder [("c", .file (Text.encode ['x'])),
      ("d", .folder [("e", .file (Text.encode ['x']))])]).WellNamed := by
    refine Node.wellNamed_folder (by decide) (by decide +kernel) ?_
    exact List.forall_mem_cons.mpr
      ⟨hfile, List.forall_mem_singleton.mpr (hone "e" (by decide +kernel))⟩
  refine Node.wellNamed_folder (by decide) (by decide +kernel) ?_
  refine List.forall_mem_cons.mpr
    ⟨hfile, List.forall_mem_cons.mpr ⟨Node.wellNamed_link _, ?_⟩⟩
  exact List.forall_mem_cons.mpr
    ⟨hone "b" (by decide +kernel), List.forall_mem_singleton.mpr htwo⟩

/-- A class that stays open is the fault of its pattern. -/
theorem read_openClass : Glob.read "[" = .error .unclosedClass := by
  have hclass : Glob.readClass [] = .error .unclosedClass := by simp [Glob.readClass]
  have hpieces : Glob.readPieces none {} ['['] = .error .unclosedClass := by
    rw [Glob.readPieces]
    split
    · rename_i fault hfault
      obtain rfl := Except.error.inj (hfault.symm.trans hclass)
      rfl
    · rename_i set after hset
      cases hclass.symm.trans hset
  simp [Glob.read, hpieces, bind, Except.bind]

/-- The word that is ignored in a nested folder, read as a glob. -/
def skipGlob : Glob :=
  ⟨[.literal 's', .literal 'k', .literal 'i', .literal 'p']⟩

theorem load_selected_nested :
    let selection : Selection := ⟨["skip"], 2⟩
    let disk : Disk := ⟨.folder nestedEntries⟩
    disk.node ⟨"/"⟩ = .ok (.folder nestedEntries) ∧ (Node.folder nestedEntries).WellNamed ∧
      (∃ tree : SourceTree, load disk selection ⟨"/"⟩ = .ok tree ∧
        (⟨"/s/c"⟩, ['x']) ∈ tree) ∧
      load disk ⟨["skip", "skip"], 2⟩ ⟨"/"⟩ = load disk selection ⟨"/"⟩ ∧
      ∃ e, load disk ⟨["skip", "["], 2⟩ ⟨"/"⟩ = .error e := by
  intro selection disk
  have hskip : readGlob "skip" = .ok skipGlob.describes := by
    have hread : Glob.read "skip" = .ok skipGlob := by
      simp [skipGlob, Glob.read, Glob.readPieces, Glob.Draft.push, Glob.Draft.inGroup, bind,
        Except.bind]
    rw [readGlob, hread]
    rfl
  have htests : readPatterns selection.ignore = .ok [skipGlob.describes] := by
    simp only [selection, readPatterns, hskip]
  have hread : AllRead readGlob selection.ignore := List.forall_mem_singleton.mpr ⟨_, hskip⟩
  have hfault : ∀ test, readGlob "[" ≠ .ok test := by
    intro test hread
    rw [readGlob, read_openClass] at hread
    cases hread
  have hnamed : (Node.folder nestedEntries).WellNamed := wellNamed_nestedEntries
  have hroot : disk.node ⟨"/"⟩ = .ok (.folder nestedEntries) := Disk.node_root _
  obtain ⟨htree, hsame, -⟩ := load_selected readGlob disk selection ⟨"/"⟩
  obtain ⟨tree, hload, -, hmem⟩ := htree nestedEntries hroot hnamed hread
  refine ⟨hroot, hnamed, ⟨tree, hload, ?_⟩, hsame hread _ (by simp [selection]), ?_⟩
  · have hfile : (["s", "c"], Text.encode ['x']) ∈ (Node.folder nestedEntries).files
        (isAdmitted [skipGlob.describes]) selection.maxDepth [] := by
      have hadmitted : ∀ place ∈ [["s"], ["s", "c"]],
          isAdmitted [skipGlob.describes] place = true := by
        decide +kernel
      simp [selection, nestedEntries, Node.files, hadmitted]
    refine (hmem _ _).mpr
      ⟨["s", "c"], _, (mem_files_iff_selects hnamed htests).mp hfile, ?_, ?_⟩
    · decide +kernel
    · rw [Text.decodeLenient_encode]
  · exact (load_selected readGlob disk ⟨["skip", "["], 2⟩ ⟨"/"⟩).2.2 "[" (by simp) hfault

end SourceTree

end StylePrune
