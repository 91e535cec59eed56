import Mathlib.Algebra.BigOperators.Group.List.Lemmas
import Mathlib.Algebra.GroupWithZero.Nat
import StylePrune.Proofs.Analysis.Report

/-!
# The folders of a project

A folder of the project is looked up in the snapshot: the walk begins at the folder's place
in the order of paths and ends with the first path that does not lie in it.  It meets the
style files of the folder and no others, so the report of a folder is the part of the whole
report about its files, and folders that share nothing share no style file.
-/

namespace StylePrune.Analysis

variable {reader : Import.Reader}

/-- The style files of a snapshot that lie in a folder. -/
def stylesIn (snapshot : Snapshot) (dir : Path) : StyleFiles :=
  snapshot.styles.filter fun (path, _) => path.startsWith dir

/-- The report of a folder of the project, on whatever disk it was asked for. -/
def IsReportOf (reader : Import.Reader) (options : Options) (snapshot : Snapshot)
    (folder : Path) (found : FolderReport) : Prop :=
  (Path.absolutize options.root folder).startsWith options.root = true ∧
    ∃ disk, (folderReport disk options snapshot folder reader).1 = .ok found

/-- Neither of two folders lies in the other. -/
def Separate (dir other : Path) : Prop :=
  dir.startsWith other = false ∧ other.startsWith dir = false

/-! ## The walk -/

section Walk

variable {options : Options} {tree : SourceTree}

theorem stylesUnder_ofTree (htree : tree.Sorted) (dir : Path) :
    stylesUnder (Snapshot.ofTree options tree reader).styles dir =
      stylesIn (.ofTree options tree reader) dir :=
  PathMap.takeWhile_startingAt (sorted_ofTree htree) dir

theorem sorted_stylesIn (htree : tree.Sorted) (dir : Path) :
    (stylesIn (.ofTree options tree reader) dir).Sorted :=
  (sorted_ofTree htree).filter _

/-- What the walk over a folder comes to. -/
theorem folderReport_of_inside (htree : tree.Sorted) (disk : Disk) {folder : Path}
    (hinside : (Path.absolutize options.root folder).startsWith options.root = true) :
    let place := Path.absolutize options.root folder
    let snapshot := Snapshot.ofTree options tree reader
    folderReport disk options snapshot folder reader =
      match disk.node place with
      | .error fault => (.error (.read place fault), [])
      | .ok _ =>
        (.ok ⟨folder, reportOf options tree snapshot.bindings (stylesIn snapshot place),
          (stylesIn snapshot place).length⟩, checkEvents (stylesIn snapshot place)) := by
  intro place snapshot
  have hunder : stylesUnder snapshot.styles place = stylesIn snapshot place :=
    stylesUnder_ofTree htree place
  rw [folderReport]
  simp only
  split
  · rename_i hnode
    rw [hnode]
  · rename_i hnode
    rw [hnode, if_pos hinside, show stylesUnder snapshot.styles _ = _ from hunder]
    rfl

theorem IsReportOf.eq (htree : tree.Sorted) {folder : Path} {found : FolderReport}
    (h : IsReportOf reader options (.ofTree options tree reader) folder found) :
    let snapshot := Snapshot.ofTree options tree reader
    let visited := stylesIn snapshot (Path.absolutize options.root folder)
    found = ⟨folder, reportOf options tree snapshot.bindings visited, visited.length⟩ := by
  obtain ⟨hinside, disk, hfound⟩ := h
  rw [folderReport_of_inside htree disk hinside] at hfound
  split at hfound
  · cases hfound
  · exact (Except.ok.inj hfound).symm

end Walk

/-! ## Parts of a report -/

theorem filter_record {options : Options} {tree : SourceTree}
    {bindings : List Import.Binding} {report : Report} (h : report.Sorted)
    (style : StyleFile) (test : String → Bool) :
    (record options tree bindings report style).filter (fun entry => test entry.1) =
      if test (nameOf options style) then
        record options tree bindings (report.filter fun entry => test entry.1) style
      else report.filter fun entry => test entry.1 := by
  unfold record
  split
  · exact (ite_self _).symm
  · exact Report.filter_insert h _ _ test

/-- The part of a report with some of its files is the report of these files. -/
theorem filter_foldl_record {options : Options} {tree : SourceTree}
    {bindings : List Import.Binding} (test : String → Bool) {report : Report}
    (h : report.Sorted) (styles : List StyleFile) :
    (styles.foldl (record options tree bindings) report).filter
        (fun entry => test entry.1) =
      (styles.filter fun style => test (nameOf options style)).foldl
        (record options tree bindings)
        (report.filter fun entry => test entry.1) := by
  induction styles generalizing report with
  | nil => rfl
  | cons style styles ih =>
      rw [List.foldl_cons, ih (sorted_record h style), filter_record h, List.filter_cons]
      split <;> rfl

theorem filter_reportOf {options : Options} {tree : SourceTree}
    {bindings : List Import.Binding} {styles : StyleFiles} (test : String → Bool)
    (keep : Path → Bool)
    (h : ∀ entry ∈ styles, test (nameOf options entry.2) = keep entry.1) :
    (reportOf options tree bindings styles).filter (fun entry => test entry.1) =
      reportOf options tree bindings (styles.filter fun entry => keep entry.1) := by
  have hstyles : (styles.map Prod.snd).filter (fun style => test (nameOf options style)) =
      (styles.filter fun entry => keep entry.1).map Prod.snd := by
    rw [List.filter_map]
    exact congrArg _ (List.filter_congr h)
  rw [reportOf, filter_foldl_record test List.Pairwise.nil, hstyles]
  rfl

/-! ## Sums over folders -/

theorem sum_ite_eq_one {β : Type} {tests : List β} {p : β → Bool}
    (hsome : ∃ t ∈ tests, p t = true)
    (hone : tests.Pairwise fun t u => ¬(p t = true ∧ p u = true)) :
    (tests.map fun t => if p t = true then 1 else 0).sum = 1 := by
  induction tests with
  | nil => simp at hsome
  | cons t tests ih =>
      obtain ⟨hhead, hrest⟩ := List.pairwise_cons.mp hone
      rw [List.map_cons, List.sum_cons]
      by_cases ht : p t = true
      · have hzero : ∀ n ∈ tests.map (fun u => if p u = true then 1 else 0), n = 0 := by
          intro n hn
          obtain ⟨u, hu, rfl⟩ := List.mem_map.mp hn
          exact if_neg fun hpu => hhead u hu ⟨ht, hpu⟩
        rw [if_pos ht, List.sum_eq_zero hzero, Nat.add_zero]
      · obtain ⟨u, hu, hpu⟩ := hsome
        have hmem := (List.mem_cons.mp hu).resolve_left fun heq => ht (heq ▸ hpu)
        rw [if_neg ht, ih ⟨u, hmem, hpu⟩ hrest]

/-- Tests of which every element passes exactly one count every element once. -/
theorem sum_countP_eq_length {α β : Type} {tests : List β} {test : β → α → Bool}
    {l : List α} (hsome : ∀ a ∈ l, ∃ t ∈ tests, test t a = true)
    (hone : ∀ a ∈ l, tests.Pairwise fun t u => ¬(test t a = true ∧ test u a = true)) :
    (tests.map fun t => l.countP (test t)).sum = l.length := by
  induction l with
  | nil => simp
  | cons a l ih =>
      obtain ⟨hsomeHead, hsomeRest⟩ := List.forall_mem_cons.mp hsome
      obtain ⟨honeHead, honeRest⟩ := List.forall_mem_cons.mp hone
      simp only [List.countP_cons]
      rw [List.sum_map_add, ih hsomeRest honeRest, sum_ite_eq_one hsomeHead honeHead,
        List.length_cons]

/-- A path does not lie in two folders of which neither lies in the other. -/
theorem Separate.not_startsWith {dir other p : Path} (h : Separate dir other) :
    ¬(p.startsWith dir = true ∧ p.startsWith other = true) := by
  rintro ⟨hdir, hother⟩
  rw [Path.startsWith_iff] at hdir hother
  rcases List.prefix_or_prefix_of_prefix hdir hother with hprefix | hprefix
  · exact Bool.eq_false_iff.mp h.2 (Path.startsWith_iff.mpr hprefix)
  · exact Bool.eq_false_iff.mp h.1 (Path.startsWith_iff.mpr hprefix)

/-! ## The folders of a project -/

/-- The style files of a project lie in its root folder. -/
theorem stylesIn_root {disk : Disk} {options : Options} {tree : SourceTree}
    {place : List String} (htree : SourceTree.Loaded disk options.root tree place) :
    stylesIn (.ofTree options tree reader) options.root =
      (Snapshot.ofTree options tree reader).styles := by
  refine List.filter_eq_self.mpr ?_
  rintro ⟨path, style⟩ hmem
  obtain ⟨-, text, htext, -⟩ := mem_ofTree hmem
  obtain ⟨names, bytes, hentry⟩ := htree.entry path text htext
  rw [Path.startsWith_iff, hentry.components]
  exact List.prefix_append _ _

/-- The name of a style file in a report leads back to the style file. -/
theorem absolutize_nameOf {disk : Disk} {options : Options} (hroot : options.root.IsNormal)
    {tree : SourceTree} {place : List String}
    (htree : SourceTree.Loaded disk options.root tree place) {entry : Path × StyleFile}
    (hentry : entry ∈ (Snapshot.ofTree options tree reader).styles)
    (hplain : '\\' ∉ entry.1.text.toList) :
    Path.absolutize options.root ⟨nameOf options entry.2⟩ = entry.1 := by
  obtain ⟨hfile, text, htext, -⟩ := mem_ofTree hentry
  obtain ⟨names, bytes, hloaded⟩ := htree.entry entry.1 text htext
  rw [nameOf, hfile]
  exact Path.absolutize_reportText hroot hloaded.normal hplain

theorem absolutize_root {root : Path} (hroot : root.IsNormal) :
    Path.absolutize root root = root := by
  rw [Path.absolutize, if_pos hroot.absolute, hroot.fixed]

/-- The walk over a folder of the project visits the style files in the folder, each once
and in the order of paths.  So the report of the folder is the part of the whole report
about its files, and folders that hold every style file, and none of which lies in
another, come to the number of all style files. -/
theorem folderReport_visits_folder {before : Disk} (hbefore : before.WellFormed)
    {options : Options} (hroot : options.root.IsNormal) {snapshot : Snapshot}
    (htake : (Snapshot.take before options reader).1 = .ok snapshot) :
    (∀ disk folder,
      let place := Path.absolutize options.root folder
      place.startsWith options.root = true →
        stylesUnder snapshot.styles place = stylesIn snapshot place ∧
        (stylesIn snapshot place).Sorted ∧
        folderReport disk options snapshot folder reader =
          match disk.node place with
          | .error fault => (.error (.read place fault), [])
          | .ok _ =>
            (.ok ⟨folder, reportOf options snapshot.tree snapshot.bindings
              (stylesIn snapshot place),
              (stylesIn snapshot place).length⟩, checkEvents (stylesIn snapshot place))) ∧
    ((∀ path ∈ snapshot.styles.paths, '\\' ∉ path.text.toList) →
      ∀ folder found whole, IsReportOf reader options snapshot folder found →
        IsReportOf reader options snapshot options.root whole →
        found.report = whole.report.filter fun (file, _) =>
          (Path.absolutize options.root ⟨file⟩).startsWith
            (Path.absolutize options.root folder)) ∧
    ∀ folders founds, List.Forall₂ (IsReportOf reader options snapshot) folders founds →
      (folders.map (Path.absolutize options.root)).Pairwise Separate →
      (∀ path ∈ snapshot.styles.paths, ∃ folder ∈ folders,
        path.startsWith (Path.absolutize options.root folder) = true) →
      (founds.map FolderReport.checked).sum = snapshot.styles.length := by
  obtain ⟨tree, hload, rfl⟩ := exists_load_of_take htake
  obtain ⟨place, htree⟩ := SourceTree.loaded_of_load hbefore hroot hload
  refine ⟨?_, ?_, ?_⟩
  · intro disk folder place hinside
    exact ⟨stylesUnder_ofTree htree.sorted place, sorted_stylesIn htree.sorted place,
      folderReport_of_inside htree.sorted disk hinside⟩
  · intro hplain folder found whole hfound hwhole
    rw [hfound.eq htree.sorted, hwhole.eq htree.sorted]
    simp only
    rw [absolutize_root hroot, stylesIn_root htree]
    refine (filter_reportOf
      (fun file => (Path.absolutize options.root ⟨file⟩).startsWith
        (Path.absolutize options.root folder))
      (fun path => path.startsWith (Path.absolutize options.root folder)) ?_).symm
    intro entry hentry
    rw [absolutize_nameOf hroot htree hentry (hplain _ (List.mem_map_of_mem hentry))]
  · intro folders founds hfounds hapart hall
    have hchecked : founds.map FolderReport.checked =
        folders.map fun folder => (Snapshot.ofTree options tree reader).styles.countP
          fun entry => entry.1.startsWith (Path.absolutize options.root folder) := by
      clear hapart hall
      induction hfounds with
      | nil => rfl
      | cons hfound _ ih =>
          rw [List.map_cons, List.map_cons, ih, hfound.eq htree.sorted,
            List.countP_eq_length_filter]
          rfl
    rw [hchecked]
    refine sum_countP_eq_length ?_ fun entry _ => ?_
    · intro entry hentry
      exact hall entry.1 (List.mem_map_of_mem hentry)
    · exact (List.pairwise_map.mp hapart).imp Separate.not_startsWith

/-- A folder, and a style file beside it whose name begins with the name of the folder. -/
theorem folderReport_visits_folder_beside :
    let text := "({ a: {} })".toList
    let file : Node := .file (Text.encode text)
    let disk : Disk := ⟨.folder [("app.ts", file), ("app", .folder [("x.ts", file)])]⟩
    let options : Options :=
      { root := ⟨"/"⟩, marker := String.ofList ['(', '{'], selection := ⟨[], 2⟩ }
    ∃ snapshot found beside, (Snapshot.take disk options).1 = .ok snapshot ∧
      (folderReport disk options snapshot ⟨"app"⟩).1 = .ok found ∧
      (folderReport disk options snapshot ⟨"app.ts"⟩).1 = .ok beside ∧
      snapshot.styles.length = 2 ∧ found.checked + beside.checked = 2 ∧
      found.report = [("app/x.ts", ["a"])] := by
  intro text file disk options
  have hdisk : disk.WellFormed := by
    refine ⟨rfl, Node.wellNamed_folder (by decide) (by decide +kernel) ?_⟩
    refine List.forall_mem_cons.mpr
      ⟨Node.wellNamed_file _, List.forall_mem_singleton.mpr ?_⟩
    refine Node.wellNamed_folder (by decide) (by decide +kernel) ?_
    exact List.forall_mem_singleton.mpr (Node.wellNamed_file _)
  have hroot : options.root.IsNormal := ⟨by decide +kernel, by decide +kernel⟩
  let tree : SourceTree := [(⟨"/app/x.ts"⟩, text), (⟨"/app.ts"⟩, text)]
  have htake : (Snapshot.take disk options).1 = .ok (.ofTree options tree) := by
    have hfiles : (disk.root).files (SourceTree.isAdmitted []) 2 [] =
        [(["app.ts"], Text.encode text), (["app", "x.ts"], Text.encode text)] := rfl
    have hpaths : SourceTree.pathAt ⟨"/"⟩ ["app.ts"] = ⟨"/app.ts"⟩ ∧
        SourceTree.pathAt ⟨"/"⟩ ["app", "x.ts"] = ⟨"/app/x.ts"⟩ := by decide +kernel
    have hsorted : PathMap.ofList [(⟨"/app.ts"⟩, text), (⟨"/app/x.ts"⟩, text)] = tree := by
      decide +kernel
    have hload : SourceTree.load disk options.selection options.root = .ok tree := by
      rw [SourceTree.load, Disk.node_root]
      simp only [options, SourceTree.readPatterns]
      rw [show (Node.folder _).files _ _ _ = _ from hfiles]
      simp only [List.map_cons, List.map_nil, hpaths, Text.decodeLenient_encode, hsorted]
    rw [Snapshot.take, hload]
  obtain ⟨hwalk, -, hsum⟩ := folderReport_visits_folder hdisk hroot htake
  have hplace : Path.absolutize options.root ⟨"app"⟩ = ⟨"/app"⟩ := by decide +kernel
  have hplaceBeside : Path.absolutize options.root ⟨"app.ts"⟩ = ⟨"/app.ts"⟩ := by
    decide +kernel
  have hnodes : ∀ bytes : ByteArray,
      let disk : Disk :=
        ⟨.folder [("app.ts", .file bytes), ("app", .folder [("x.ts", .file bytes)])]⟩
      disk.node ⟨"/app"⟩ = .ok (.folder [("x.ts", .file bytes)]) ∧
        disk.node ⟨"/app.ts"⟩ = .ok (.file bytes) := by
    intro bytes disk
    have hpieces : (⟨"/app"⟩ : Path).pieces.map String.ofList = ["", "app"] ∧
        (⟨"/app.ts"⟩ : Path).pieces.map String.ofList = ["", "app.ts"] := by decide +kernel
    constructor
    · simp [disk, Disk.node, Disk.locate, hpieces, Disk.follow, Node.get?, Node.child?,
        List.lookup_cons]
    · simp [disk, Disk.node, Disk.locate, hpieces, Disk.follow, Node.get?, Node.child?]
  obtain ⟨hnode, hnodeBeside⟩ := hnodes (Text.encode text)
  have hfolder := (hwalk disk ⟨"app"⟩ (by decide +kernel)).2.2
  have hbeside := (hwalk disk ⟨"app.ts"⟩ (by decide +kernel)).2.2
  rw [hplace, show disk.node _ = _ from hnode] at hfolder
  rw [hplaceBeside, show disk.node _ = _ from hnodeBeside] at hbeside
  have hlength : (Snapshot.ofTree options tree).styles.length = 2 := by decide +kernel
  have htotal := hsum [⟨"app"⟩, ⟨"app.ts"⟩] _
    (.cons ⟨by decide +kernel, disk, congrArg Prod.fst hfolder⟩
      (.cons ⟨by decide +kernel, disk, congrArg Prod.fst hbeside⟩ .nil))
    (List.pairwise_pair.mpr ⟨by decide +kernel, by decide +kernel⟩) (by decide +kernel)
  refine ⟨_, _, _, htake, congrArg Prod.fst hfolder, congrArg Prod.fst hbeside, hlength, ?_,
    by decide +kernel⟩
  exact htotal.trans hlength

end StylePrune.Analysis
