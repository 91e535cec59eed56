import StylePrune.Analysis
import StylePrune.Proofs.Path.ReportText
import StylePrune.Proofs.Report.Order
import StylePrune.Proofs.SourceTree.Load
import StylePrune.Proofs.Text.Search

/-!
# What a report lists

A key is referenced if a file of the project imports the style file under a name
and mentions the key behind that name, or if the style file mentions it behind the
name of its own literal.  The report of a folder lists, for each style file in it,
the keys that are not referenced, and no style file without such a key.  All this holds
however the directives of a file are read.
-/

namespace StylePrune

theorem Text.contains_iff {needle text : List Char} :
    Text.contains needle text = true ↔ needle <:+: text := by
  rw [Text.contains, ← not_iff_not, ← Text.splitFirst_eq_none_iff, Bool.not_eq_true,
    Option.isSome_eq_false_iff, Option.isNone_iff_eq_none]

namespace Analysis

variable {reader : Import.Reader}

/-! ## References -/

/-- A text mentions a key behind a name. -/
def Mentions (text : List Char) (name key : String) : Prop :=
  name.toList ++ '.' :: key.toList <:+: text

instance (text : List Char) (name key : String) : Decidable (Mentions text name key) :=
  inferInstanceAs (Decidable (_ <:+: _))

/-- A file of a tree has an import of a style file, one of the `targets`, and mentions a
key behind one of the names that the import binds. -/
def MentionedByImport (reader : Import.Reader) (options : Options) (tree : SourceTree)
    (targets : List Path) (style : Path) (key : String) : Prop :=
  ∃ file ∈ tree, ∃ directive ∈ (reader file.1 file.2).1, ∃ name ∈ directive.aliases,
    (∃ target ∈ Import.matchStyle?
        (options.resolution.resolve file.1 directive.specifier) targets,
      target.same style = true) ∧ Mentions file.2 name key

/-- A style file mentions a key of its own behind the name that its literal is bound to. -/
def MentionedByItself (options : Options) (style : StyleFile) (key : String) : Prop :=
  options.localUsage = true ∧ ∃ name ∈ style.table.binding, Mentions style.residual name key

/-- Something refers to a key of a style file. -/
def Referenced (reader : Import.Reader) (options : Options) (tree : SourceTree)
    (targets : List Path) (path : Path) (style : StyleFile) (key : String) : Prop :=
  MentionedByImport reader options tree targets path key ∨
    MentionedByItself options style key

instance (options : Options) (tree : SourceTree) (targets : List Path) (style : Path)
    (key : String) : Decidable (MentionedByImport reader options tree targets style key) :=
  inferInstanceAs (Decidable (∃ file ∈ tree, ∃ directive ∈ _, ∃ name ∈ _,
    (∃ target ∈ Import.matchStyle? _ targets, _) ∧ _))

instance (options : Options) (style : StyleFile) (key : String) :
    Decidable (MentionedByItself options style key) :=
  inferInstanceAs (Decidable (_ ∧ ∃ name ∈ style.table.binding, _))

instance (options : Options) (tree : SourceTree) (targets : List Path) (path : Path)
    (style : StyleFile) (key : String) :
    Decidable (Referenced reader options tree targets path style key) :=
  inferInstanceAs (Decidable (_ ∨ _))

/-- The keys of a style file that nothing refers to, as they are declared. -/
def unreferenced (reader : Import.Reader) (options : Options) (tree : SourceTree)
    (targets : List Path) (path : Path) (style : StyleFile) : List String :=
  style.table.keys.filter fun key => ¬Referenced reader options tree targets path style key

theorem mentions_iff {text : List Char} {name key : String} :
    Usage.mentions text name key = true ↔ Mentions text name key :=
  Text.contains_iff

theorem mem_usedUnder {name key : String} {keys : List String} {text : List Char} :
    key ∈ Usage.usedKeys name keys text ↔ key ∈ keys ∧ Mentions text name key := by
  rw [Usage.usedKeys, List.mem_filter, mentions_iff]

theorem mem_usedLocally {options : Options} {style : StyleFile} {key : String} :
    key ∈ (if options.localUsage then usedLocally style else []) ↔
      key ∈ style.table.keys ∧ MentionedByItself options style key := by
  rw [MentionedByItself, usedLocally]
  cases options.localUsage with
  | false => simp
  | true =>
      cases style.table.binding with
      | none => simp
      | some name => simp [mem_usedUnder]

/-- The bindings of an index come from the directives of the files. -/
theorem mem_index {options : Options} {tree : SourceTree} {targets : StyleFiles}
    {binding : Import.Binding} :
    binding ∈ Import.index options tree targets reader ↔
      ∃ file ∈ tree, ∃ directive ∈ (reader file.1 file.2).1,
        ∃ target ∈ Import.matchStyle?
            (options.resolution.resolve file.1 directive.specifier) targets.paths,
          binding = ⟨file.1, target, directive.aliases⟩ := by
  simp only [Import.index, Import.Resolution.bindings, List.mem_flatMap, List.mem_map,
    List.mem_filterMap, Import.Resolution.binding?, Option.map_eq_some_iff, Option.mem_def]
  constructor
  · rintro ⟨_, ⟨file, hfile, rfl⟩, directive, hdirective, target, htarget, rfl⟩
    exact ⟨file, hfile, directive, hdirective, target, htarget, rfl⟩
  · rintro ⟨file, hfile, directive, hdirective, target, htarget, rfl⟩
    exact ⟨_, ⟨file, hfile, rfl⟩, directive, hdirective, target, htarget, rfl⟩

theorem mem_usedThrough {tree : SourceTree} (htree : tree.Sorted) {file : Path × List Char}
    (hfile : file ∈ tree) {keys : List String} {key : String} (target : Path)
    (names : Names) :
    key ∈ usedThrough tree keys ⟨file.1, target, names⟩ ↔
      key ∈ keys ∧ ∃ name ∈ names, Mentions file.2 name key := by
  have hget : tree.get? file.1 = some file.2 := PathMap.get?_of_mem htree hfile
  simp only [usedThrough, hget, List.mem_flatMap, mem_usedUnder]
  constructor
  · rintro ⟨name, hname, hkey, hmentions⟩
    exact ⟨hkey, name, hname, hmentions⟩
  · rintro ⟨hkey, name, hname, hmentions⟩
    exact ⟨name, hname, hkey, hmentions⟩

/-- What the index finds is what the files of the tree mention. -/
theorem mem_flatMap_usedThrough {options : Options} {tree : SourceTree}
    (htree : tree.Sorted) {targets : StyleFiles} {style : Path} {keys : List String}
    {key : String} :
    key ∈ (Import.bindingsFor (Import.index options tree targets reader) style).flatMap
        (usedThrough tree keys) ↔
      key ∈ keys ∧ MentionedByImport reader options tree targets.paths style key := by
  rw [List.mem_flatMap]
  constructor
  · rintro ⟨binding, hbinding, hused⟩
    obtain ⟨hindex, hsame⟩ := List.mem_filter.mp hbinding
    obtain ⟨file, hfile, directive, hdirective, target, htarget, rfl⟩ := mem_index.mp hindex
    obtain ⟨hkey, name, hname, hmentions⟩ := (mem_usedThrough htree hfile target _).mp hused
    exact ⟨hkey, file, hfile, directive, hdirective, name, hname, ⟨target, htarget, hsame⟩,
      hmentions⟩
  · rintro ⟨hkey, file, hfile, directive, hdirective, name, hname, ⟨target, htarget, hsame⟩,
      hmentions⟩
    refine ⟨⟨file.1, target, directive.aliases⟩, List.mem_filter.mpr ⟨?_, hsame⟩, ?_⟩
    · exact mem_index.mpr ⟨file, hfile, directive, hdirective, target, htarget, rfl⟩
    · exact (mem_usedThrough htree hfile target _).mpr ⟨hkey, name, hname, hmentions⟩

theorem mem_usedKeys {options : Options} {tree : SourceTree} (htree : tree.Sorted)
    {targets : StyleFiles} {style : StyleFile} {key : String} :
    key ∈ usedKeys options tree (Import.index options tree targets reader) style ↔
      key ∈ style.table.keys ∧
        Referenced reader options tree targets.paths style.table.file style key := by
  rw [usedKeys, List.mem_append, mem_flatMap_usedThrough htree, mem_usedLocally,
    ← and_or_left]
  rfl

theorem unusedKeys_eq {options : Options} {tree : SourceTree} (htree : tree.Sorted)
    (targets : StyleFiles) (style : StyleFile) :
    unusedKeys options tree (Import.index options tree targets reader) style =
      unreferenced reader options tree targets.paths style.table.file style := by
  refine List.filter_congr fun key hkey => ?_
  rw [decide_eq_decide, mem_usedKeys htree, and_iff_right hkey]

/-! ## The report of a list of style files -/

section Reports

variable {options : Options} {tree : SourceTree} {bindings : List Import.Binding}

/-- The name of a style file in a report. -/
def nameOf (options : Options) (style : StyleFile) : String :=
  Path.reportText options.root style.table.file

theorem lookup_record (report : Report) (style : StyleFile) (file : String) :
    (record options tree bindings report style).lookup file =
      if file = nameOf options style ∧ unusedKeys options tree bindings style ≠ [] then
        some (unusedKeys options tree bindings style)
      else report.lookup file := by
  unfold record
  split
  · rename_i hnil
    simp [hnil]
  · rename_i hkeys
    rw [Report.lookup_insert]
    exact if_congr (and_iff_left hkeys).symm rfl rfl

theorem lookup_foldl_of_notMem {styles : List StyleFile} {file : String} (report : Report)
    (h : file ∉ styles.map (nameOf options)) :
    (styles.foldl (record options tree bindings) report).lookup file =
      report.lookup file := by
  induction styles generalizing report with
  | nil => rfl
  | cons style styles ih =>
      rw [List.map_cons, List.mem_cons, not_or] at h
      rw [List.foldl_cons, ih _ h.2, lookup_record, if_neg fun hand => h.1 hand.1]

theorem lookup_foldl_of_mem {styles : List StyleFile} {style : StyleFile} (report : Report)
    (hnodup : (styles.map (nameOf options)).Nodup) (h : style ∈ styles) :
    (styles.foldl (record options tree bindings) report).lookup (nameOf options style) =
      if unusedKeys options tree bindings style ≠ [] then
        some (unusedKeys options tree bindings style)
      else report.lookup (nameOf options style) := by
  induction styles generalizing report with
  | nil => cases h
  | cons first styles ih =>
      rw [List.map_cons, List.nodup_cons] at hnodup
      rw [List.foldl_cons]
      rcases List.mem_cons.mp h with rfl | h
      · simp [lookup_foldl_of_notMem _ hnodup.1, lookup_record]
      · have hne : nameOf options style ≠ nameOf options first := by
          intro heq
          exact hnodup.1 (List.mem_map.mpr ⟨style, h, heq⟩)
        have hkept : (record options tree bindings report first).lookup
            (nameOf options style) = report.lookup (nameOf options style) := by
          rw [lookup_record, if_neg fun hand => hne hand.1]
        rw [ih _ hnodup.2 h, hkept]

theorem sorted_record {report : Report} (h : report.Sorted) (style : StyleFile) :
    (record options tree bindings report style).Sorted := by
  unfold record
  split
  · exact h
  · exact Report.sorted_insert h _ _

theorem sorted_reportOf (styles : StyleFiles) :
    (reportOf options tree bindings styles).Sorted := by
  have hfold : ∀ (styles : List StyleFile) (report : Report), report.Sorted →
      (styles.foldl (record options tree bindings) report).Sorted := by
    intro styles
    induction styles with
    | nil => exact fun report hreport => hreport
    | cons style styles ih =>
        intro report hreport
        exact ih _ (sorted_record hreport style)
  exact hfold _ [] List.Pairwise.nil

end Reports

/-! ## Style files and where they are looked for -/

theorem mem_ofTree {options : Options} {tree : SourceTree} {path : Path} {style : StyleFile}
    (h : (path, style) ∈ StyleFiles.ofTree options tree) :
    style.table.file = path ∧ ∃ text, (path, text) ∈ tree ∧
      (StyleTable.extract path options.marker.toList text).1.table = some style.table := by
  obtain ⟨⟨p, text⟩, hmem, hstyle⟩ := List.mem_filterMap.mp h
  obtain ⟨table, htable, heq⟩ := Option.map_eq_some_iff.mp hstyle
  obtain ⟨rfl, rfl⟩ := Prod.mk.inj heq
  refine ⟨?_, text, hmem, htable⟩
  unfold StyleTable.extract at htable
  split at htable
  · cases htable
  · obtain rfl := Option.some.inj htable
    rfl

theorem sorted_ofTree {options : Options} {tree : SourceTree} (h : tree.Sorted) :
    (StyleFiles.ofTree options tree).Sorted := by
  refine List.Pairwise.filterMap _ ?_ h
  rintro ⟨p, text⟩ ⟨q, other⟩ hbefore a ha b hb
  obtain ⟨-, -, rfl⟩ := Option.map_eq_some_iff.mp ha
  obtain ⟨-, -, rfl⟩ := Option.map_eq_some_iff.mp hb
  exact hbefore

/-- The style files that imports are compared with, and those of them that a folder's
report is about: the project's style files and those below the folder, or all of a folder
outside. -/
inductive Scope (disk : Disk) (options : Options) (tree : SourceTree) (dir : Path) :
    StyleFiles → StyleFiles → Prop where
  | inside (h : dir.startsWith options.root = true) :
      Scope disk options tree dir (.ofTree options tree)
        ((StyleFiles.ofTree options tree).filter fun (path, _) => path.startsWith dir)
  | outside (h : dir.startsWith options.root = false) {outside : SourceTree}
      (hload : SourceTree.load disk options.selection dir = .ok outside) :
      Scope disk options tree dir (.ofTree options outside) (.ofTree options outside)

theorem exists_load_of_take {disk : Disk} {options : Options} {snapshot : Snapshot}
    (h : (Snapshot.take disk options reader).1 = .ok snapshot) :
    ∃ tree, SourceTree.load disk options.selection options.root = .ok tree ∧
      snapshot = .ofTree options tree reader := by
  unfold Snapshot.take at h
  split at h
  · cases h
  · rename_i tree hload
    exact ⟨tree, hload, (Except.ok.inj h).symm⟩

/-- What a folder's report is made of. -/
theorem exists_scope_of_folderReport {disk : Disk} {options : Options} {tree : SourceTree}
    (htree : tree.Sorted) {folder : Path} {found : FolderReport}
    (h : (folderReport disk options (.ofTree options tree reader) folder reader).1 =
      .ok found) :
    ∃ targets visited,
      Scope disk options tree (Path.absolutize options.root folder) targets visited ∧
      found.report = reportOf options tree
        (Import.index options tree targets reader) visited ∧
      found.checked = visited.length := by
  unfold folderReport at h
  simp only at h
  split at h
  · cases h
  · split at h
    · rename_i hinside
      obtain rfl := Except.ok.inj h
      refine ⟨_, _, .inside hinside, ?_⟩
      rw [stylesUnder, Snapshot.ofTree, PathMap.takeWhile_startingAt (sorted_ofTree htree)]
      exact ⟨rfl, rfl⟩
    · rename_i houtside
      split at h
      · cases h
      · rename_i outside hload
        obtain rfl := Except.ok.inj h
        exact ⟨_, _, .outside (Bool.eq_false_iff.mpr houtside) hload, rfl, rfl⟩

theorem sorted_of_folderReport {disk : Disk} {options : Options} {snapshot : Snapshot}
    {folder : Path} {found : FolderReport}
    (h : (folderReport disk options snapshot folder reader).1 = .ok found) :
    found.report.Sorted := by
  unfold folderReport at h
  simp only at h
  split at h
  · cases h
  · split at h
    · obtain rfl := Except.ok.inj h
      exact sorted_reportOf _
    · split at h
      · cases h
      · obtain rfl := Except.ok.inj h
        exact sorted_reportOf _

/-- The style files that a report is about are in order, and their paths are normal. -/
theorem Scope.visited_normal {disk before : Disk} (hdisk : disk.WellFormed)
    {options : Options} {tree : SourceTree} {place : List String}
    (htree : SourceTree.Loaded before options.root tree place) {dir : Path}
    (hdir : dir.IsNormal) {targets visited : StyleFiles}
    (h : Scope disk options tree dir targets visited) :
    visited.Sorted ∧
      ∀ path style, (path, style) ∈ visited → style.table.file = path ∧ path.IsNormal := by
  cases h with
  | inside h =>
      refine ⟨(sorted_ofTree htree.sorted).filter _, ?_⟩
      intro path style hmem
      obtain ⟨hfile, text, htext, -⟩ := mem_ofTree (List.mem_of_mem_filter hmem)
      obtain ⟨names, bytes, hentry⟩ := htree.entry path text htext
      exact ⟨hfile, hentry.normal⟩
  | outside h hload =>
      obtain ⟨place, hloaded⟩ := SourceTree.loaded_of_load hdisk hdir hload
      refine ⟨sorted_ofTree hloaded.sorted, ?_⟩
      intro path style hmem
      obtain ⟨hfile, text, htext, -⟩ := mem_ofTree hmem
      obtain ⟨names, bytes, hentry⟩ := hloaded.entry path text htext
      exact ⟨hfile, hentry.normal⟩

/-! ## The report of a folder -/

/-- A report lists the keys of the visited style files that nothing refers to. -/
structure ListsUnreferenced (reader : Import.Reader) (options : Options) (tree : SourceTree)
    (targets visited : StyleFiles) (found : FolderReport) : Prop where
  /-- Each file is listed at most once. -/
  sorted : found.report.Sorted
  /-- A visited style file is listed with its unreferenced keys if it has any. -/
  listed : ∀ path style, (path, style) ∈ visited →
    found.report.lookup (Path.reportText options.root path) =
      if unreferenced reader options tree targets.paths path style = [] then none
      else some (unreferenced reader options tree targets.paths path style)
  /-- No other file is listed. -/
  others : ∀ file ∈ found.report.map Prod.fst, ∃ path ∈ visited.paths,
    file = Path.reportText options.root path
  /-- Each visited style file counts, and counts once. -/
  once : visited.Sorted
  checked : found.checked = visited.length

theorem listsUnreferenced_of_reportOf {options : Options} (hroot : options.root.IsNormal)
    {tree : SourceTree} (htree : tree.Sorted) {targets visited : StyleFiles}
    (hsorted : visited.Sorted)
    (hvisited : ∀ path style, (path, style) ∈ visited →
      style.table.file = path ∧ path.IsNormal)
    (hplain : ∀ path ∈ visited.paths, '\\' ∉ path.text.toList) {found : FolderReport}
    (hreport : found.report =
      reportOf options tree (Import.index options tree targets reader) visited)
    (hchecked : found.checked = visited.length) :
    ListsUnreferenced reader options tree targets visited found := by
  have hname : ∀ entry ∈ visited,
      nameOf options entry.2 = Path.reportText options.root entry.1 := by
    rintro ⟨path, style⟩ hmem
    rw [nameOf, (hvisited path style hmem).1]
  have hback : ∀ entry ∈ visited,
      Path.absolutize options.root ⟨Path.reportText options.root entry.1⟩ = entry.1 := by
    rintro ⟨path, style⟩ hmem
    exact Path.absolutize_reportText hroot (hvisited path style hmem).2
      (hplain path (List.mem_map.mpr ⟨_, hmem, rfl⟩))
  have hnodup : ((visited.map Prod.snd).map (nameOf options)).Nodup := by
    rw [List.map_map]
    refine List.pairwise_map.mpr (hsorted.imp_of_mem ?_)
    intro a b ha hb hbefore heq
    have hname' : Path.reportText options.root a.1 = Path.reportText options.root b.1 := by
      rw [← hname a ha, ← hname b hb]
      exact heq
    have hpath : a.1 = b.1 := by
      rw [← hback a ha, ← hback b hb, hname']
    rw [Path.before_iff, hpath] at hbefore
    exact hbefore.false
  refine ⟨?_, ?_, ?_, hsorted, hchecked⟩
  · rw [hreport]
    exact sorted_reportOf visited
  · intro path style hmem
    have hstyle : style ∈ visited.map Prod.snd :=
      List.mem_map.mpr ⟨(path, style), hmem, rfl⟩
    rw [← hname (path, style) hmem, hreport, reportOf, lookup_foldl_of_mem [] hnodup hstyle,
      unusedKeys_eq htree, (hvisited path style hmem).1]
    exact ite_not _ _ _
  · intro file hfile
    by_contra hnone
    have hout : file ∉ (visited.map Prod.snd).map (nameOf options) := by
      rw [List.map_map, List.mem_map]
      rintro ⟨entry, hentry, rfl⟩
      exact hnone ⟨entry.1, List.mem_map.mpr ⟨entry, hentry, rfl⟩, hname entry hentry⟩
    obtain ⟨⟨f, keys⟩, hkeys, rfl⟩ := List.mem_map.mp hfile
    have hlookup := lookup_of_mem (hreport ▸ sorted_reportOf visited).nodup hkeys
    rw [hreport, reportOf, lookup_foldl_of_notMem [] hout] at hlookup
    cases hlookup

/-- In the report of a folder, inside the project or outside, each style file of the folder
stands with those of its keys that nothing in the project refers to, in the order of their
declaration, and stands there only if there is such a key.  This is so for any reader of
directives. -/
theorem folderReport_lists_unreferenced {before disk : Disk} (hbefore : before.WellFormed)
    (hdisk : disk.WellFormed) {options : Options} (hroot : options.root.IsNormal)
    {snapshot : Snapshot} (htake : (Snapshot.take before options reader).1 = .ok snapshot)
    {folder : Path} {found : FolderReport}
    (hfound : (folderReport disk options snapshot folder reader).1 = .ok found) :
    ∃ targets visited,
      Scope disk options snapshot.tree
        (Path.absolutize options.root folder) targets visited ∧
      ((∀ path ∈ visited.paths, '\\' ∉ path.text.toList) →
        ListsUnreferenced reader options snapshot.tree targets visited found) := by
  obtain ⟨tree, hload, rfl⟩ := exists_load_of_take htake
  obtain ⟨place, htree⟩ := SourceTree.loaded_of_load hbefore hroot hload
  obtain ⟨targets, visited, hscope, hreport, hchecked⟩ :=
    exists_scope_of_folderReport htree.sorted hfound
  have hdir := Path.isNormal_absolutize hroot.absolute folder
  obtain ⟨hsorted, hvisited⟩ := hscope.visited_normal hdisk htree hdir
  refine ⟨targets, visited, hscope, fun hplain => ?_⟩
  exact listsUnreferenced_of_reportOf hroot htree.sorted hsorted hvisited hplain
    hreport hchecked

/-- Two style files, one of them outside the project, and a file that imports both. -/
theorem folderReport_lists_unreferenced_imports :
    let card := "const s = ({ a: {}, b: {}, c: {} }); s.c".toList
    let view := "import t from './card';\nimport u from '../lib/x';\nt.a + u.k".toList
    let outer := "({ k: {}, l: {} })".toList
    let disk : Disk := ⟨.folder
      [("app", .ofFiles [("card.ts", Text.encode card), ("view.ts", Text.encode view)]),
        ("lib", .ofFiles [("x.ts", Text.encode outer)])]⟩
    let options : Options :=
      { root := ⟨"/app"⟩, marker := String.ofList ['(', '{'], selection := ⟨[], 1⟩ }
    ∃ snapshot inside outside, (Snapshot.take disk options).1 = .ok snapshot ∧
      (folderReport disk options snapshot ⟨"."⟩).1 = .ok inside ∧
      (folderReport disk options snapshot ⟨"../lib"⟩).1 = .ok outside ∧
      inside.report.lookup "card.ts" = some ["b"] ∧ inside.checked = 1 ∧
      outside.report.lookup "/lib/x.ts" = some ["l"] ∧ outside.checked = 1 := by
  intro card view outer disk options
  have hdisk : disk.WellFormed := by
    refine ⟨rfl, Node.wellNamed_folder (by simp) (by decide +kernel) ?_⟩
    refine List.forall_mem_cons.mpr ⟨?_, List.forall_mem_singleton.mpr ?_⟩
    · exact Node.wellNamed_ofFiles (by decide) (by simp; decide +kernel)
    · exact Node.wellNamed_ofFiles (by decide) (by simp; decide +kernel)
  have hroot : options.root.IsNormal := ⟨by decide +kernel, by decide +kernel⟩
  have happ : disk.node ⟨"/app"⟩ =
      .ok (.ofFiles [("card.ts", Text.encode card), ("view.ts", Text.encode view)]) :=
    Disk.node_at_root (by decide +kernel : Disk.IsAtRoot ⟨"/app"⟩ "app") rfl
      (by simp [Node.ofFiles])
  have hlib : disk.node ⟨"/lib"⟩ = .ok (.ofFiles [("x.ts", Text.encode outer)]) :=
    Disk.node_at_root (by decide +kernel : Disk.IsAtRoot ⟨"/lib"⟩ "lib") rfl
      (by simp [Node.ofFiles])
  let tree : SourceTree := [(⟨"/app/card.ts"⟩, card), (⟨"/app/view.ts"⟩, view)]
  have hload : SourceTree.load disk options.selection options.root = .ok tree := by
    rw [SourceTree.load_ofFiles happ rfl one_ne_zero]
    simp only [List.map_cons, List.map_nil, Text.decodeLenient_encode]
    decide +kernel
  have hloadOutside : SourceTree.load disk options.selection ⟨"/lib"⟩ =
      .ok [(⟨"/lib/x.ts"⟩, outer)] := by
    rw [SourceTree.load_ofFiles hlib rfl one_ne_zero]
    simp only [List.map_cons, List.map_nil, Text.decodeLenient_encode]
    decide +kernel
  have htake : (Snapshot.take disk options).1 = .ok (.ofTree options tree) := by
    rw [Snapshot.take, hload]
  have hplace : Path.absolutize options.root ⟨"."⟩ = ⟨"/app"⟩ := by decide +kernel
  have hplaceOutside : Path.absolutize options.root ⟨"../lib"⟩ = ⟨"/lib"⟩ := by
    decide +kernel
  have hinside : (⟨"/app"⟩ : Path).startsWith options.root = true := by decide +kernel
  have houtside : (⟨"/lib"⟩ : Path).startsWith options.root = false := by decide +kernel
  obtain ⟨inside, hfound⟩ : ∃ found,
      (folderReport disk options (.ofTree options tree) ⟨"."⟩).1 = .ok found := by
    simp only [folderReport, hplace, happ, hinside, if_true]
    exact ⟨_, rfl⟩
  obtain ⟨outside, hfoundOutside⟩ : ∃ found,
      (folderReport disk options (.ofTree options tree) ⟨"../lib"⟩).1 = .ok found := by
    simp only [folderReport, hplaceOutside, hlib, houtside, hloadOutside]
    exact ⟨_, rfl⟩
  refine ⟨_, inside, outside, htake, hfound, hfoundOutside, ?_⟩
  have hlisted : inside.report.lookup "card.ts" = some ["b"] ∧ inside.checked = 1 := by
    obtain ⟨targets, visited, hscope, hlists⟩ :=
      folderReport_lists_unreferenced hdisk hdisk hroot htake hfound
    rw [hplace] at hscope
    cases hscope with
    | outside h => rw [hinside] at h; cases h
    | inside =>
        have hreport := hlists (by decide +kernel)
        have hcard := hreport.listed ⟨"/app/card.ts"⟩
          ⟨⟨⟨"/app/card.ts"⟩, ["a", "b", "c"], some "s"⟩, "const s =  s.c".toList⟩
          (by decide +kernel)
        have hname : Path.reportText options.root ⟨"/app/card.ts"⟩ = "card.ts" := by
          decide +kernel
        rw [hname] at hcard
        exact ⟨hcard.trans (by decide +kernel), hreport.checked.trans (by decide +kernel)⟩
  have hlistedOutside : outside.report.lookup "/lib/x.ts" = some ["l"] ∧
      outside.checked = 1 := by
    obtain ⟨targets, visited, hscope, hlists⟩ :=
      folderReport_lists_unreferenced hdisk hdisk hroot htake hfoundOutside
    rw [hplaceOutside] at hscope
    cases hscope with
    | inside h => rw [houtside] at h; cases h
    | outside _ hother =>
        obtain rfl := Except.ok.inj (hloadOutside.symm.trans hother)
        have hreport := hlists (by decide +kernel)
        have houter := hreport.listed ⟨"/lib/x.ts"⟩
          ⟨⟨⟨"/lib/x.ts"⟩, ["k", "l"], none⟩, []⟩ (by decide +kernel)
        have hname : Path.reportText options.root ⟨"/lib/x.ts"⟩ = "/lib/x.ts" := by
          decide +kernel
        rw [hname] at houter
        exact ⟨houter.trans (by decide +kernel), hreport.checked.trans (by decide +kernel)⟩
  exact ⟨hlisted.1, hlisted.2, hlistedOutside.1, hlistedOutside.2⟩

end Analysis

end StylePrune
