import Mathlib.Data.List.Forall2
import StylePrune.Proofs.Analysis.Report
import StylePrune.Proofs.Removal.Run
import StylePrune.Proofs.StyleTable.Removal

/-!
# Removing what a scan reports

The reports of folders of which none lies in another name each style file once, and
each by a path that leads back to it.  A removal then cuts every reported key,
provided that the bytes of every reported file are a text: the analysis reads files
leniently and the removal does not.
-/

namespace StylePrune.Analysis

open Component

variable {reader : Import.Reader}

/-- Two folders lie apart: neither is reached on the way to the other. -/
def Apart (disk : Disk) (root f g : Path) : Prop :=
  ∀ p q, disk.place? (Path.absolutize root f) = some p →
    disk.place? (Path.absolutize root g) = some q → ¬p <+: q ∧ ¬q <+: p

/-! ## The reports of several folders -/

theorem forall₂_of_folderReports {disk : Disk} {options : Options} {snapshot : Snapshot}
    {folders : List Path} {founds : List FolderReport}
    (h : (folderReports disk options snapshot folders reader).1 = .ok founds) :
    List.Forall₂ (fun folder found =>
      (folderReport disk options snapshot folder reader).1 = .ok found) folders founds := by
  induction folders generalizing founds with
  | nil =>
      cases h
      exact .nil
  | cons folder folders ih =>
      unfold folderReports at h
      split at h
      · cases h
      · rename_i found events hfound
        split at h
        · cases h
        · rename_i rest more hrest
          obtain rfl := Except.ok.inj h
          exact .cons (by rw [hfound]) (ih (by rw [hrest]))

theorem exists_take_of_scan {disk : Disk} {options : Options} {folders : List Path}
    {founds : List FolderReport} (h : (scan disk options folders reader).1 = .ok founds) :
    ∃ snapshot, (Snapshot.take disk options reader).1 = .ok snapshot ∧
      (folderReports disk options snapshot folders reader).1 = .ok founds := by
  unfold scan at h
  split at h
  · cases h
  · rename_i snapshot events htake
    exact ⟨snapshot, by rw [htake], h⟩

theorem sorted_of_scan {disk : Disk} {options : Options} {folders : List Path}
    {founds : List FolderReport} (h : (scan disk options folders reader).1 = .ok founds) :
    ∀ report ∈ founds.map FolderReport.report, report.Sorted := by
  obtain ⟨snapshot, -, hreports⟩ := exists_take_of_scan h
  have hfounds := forall₂_of_folderReports hreports
  clear h hreports
  induction hfounds with
  | nil => simp
  | cons hfound _ ih => exact List.forall_mem_cons.mpr ⟨sorted_of_folderReport hfound, ih⟩

/-! ## Visited style files on the disk -/

/-- A visited style file: the bytes of the file that its path leads to, below the folder's
place, give its table when they are read leniently. -/
structure Seen (disk : Disk) (options : Options) (dir path : Path) (style : StyleFile)
    (bytes : ByteArray) : Prop where
  below : ∃ stage rest,
    disk.place? dir = some stage ∧ disk.place? path = some (stage ++ rest)
  read : disk.read path = .ok bytes
  table :
    (StyleTable.extract path options.marker.toList (Text.decodeLenient bytes)).1.table =
      some style.table

theorem mem_paths_of_mem_ofTree {options : Options} {tree : SourceTree} {path : Path}
    (h : path ∈ (StyleFiles.ofTree options tree).paths) : path ∈ tree.paths := by
  obtain ⟨⟨path, style⟩, hmem, rfl⟩ := List.mem_map.mp h
  obtain ⟨-, text, htext, -⟩ := mem_ofTree hmem
  exact List.mem_map.mpr ⟨(path, text), htext, rfl⟩

section Scope

variable {disk : Disk} {options : Options} {tree : SourceTree}
  {place : List String} {dir : Path}
  {targets visited : StyleFiles}

theorem Scope.exists_seen (hdisk : disk.WellFormed) (hroot : options.root.IsNormal)
    (htree : SourceTree.Loaded disk options.root tree place) (hdir : dir.IsNormal)
    (h : Scope disk options tree dir targets visited) {path : Path} {style : StyleFile}
    (hmem : (path, style) ∈ visited) : ∃ bytes, Seen disk options dir path style bytes := by
  cases h with
  | inside hinside =>
      obtain ⟨hstyle, hbelow⟩ := List.mem_filter.mp hmem
      obtain ⟨-, text, htext, htable⟩ := mem_ofTree hstyle
      obtain ⟨names, bytes, hentry⟩ := htree.entry path text htext
      obtain ⟨stage, rest, hstage, hplace⟩ :=
        htree.exists_stage hdisk.rooted hroot hdir hentry hinside hbelow
      refine ⟨bytes, ⟨stage, rest, hstage, ?_⟩, ?_, ?_⟩
      · rw [hentry.place?, hplace]
      · exact (Disk.read_eq_ok_iff hdisk.rooted).mpr ⟨_, hentry.place?, hentry.look⟩
      · rw [← hentry.text, htable]
  | outside houtside hload =>
      obtain ⟨stage, houter⟩ := SourceTree.loaded_of_load hdisk hdir hload
      obtain ⟨-, text, htext, htable⟩ := mem_ofTree hmem
      obtain ⟨names, bytes, hentry⟩ := houter.entry path text htext
      refine ⟨bytes, ⟨stage, names, houter.place?, hentry.place?⟩, ?_, ?_⟩
      · exact (Disk.read_eq_ok_iff hdisk.rooted).mpr ⟨_, hentry.place?, hentry.look⟩
      · rw [← hentry.text, htable]

theorem Scope.path_eq (hdisk : disk.WellFormed)
    (htree : SourceTree.Loaded disk options.root tree place) (hdir : dir.IsNormal)
    (h : Scope disk options tree dir targets visited) {path other : Path}
    (hpath : path ∈ visited.paths) (hother : other ∈ visited.paths)
    (hsame : disk.place? path = disk.place? other) : path = other := by
  cases h with
  | inside hinside =>
      have hsub : ∀ p, p ∈ PathMap.paths ((StyleFiles.ofTree options tree).filter
          fun entry => entry.1.startsWith dir) → p ∈ tree.paths := by
        intro p hp
        obtain ⟨entry, hentry, rfl⟩ := List.mem_map.mp hp
        exact mem_paths_of_mem_ofTree
          (List.mem_map.mpr ⟨entry, List.mem_of_mem_filter hentry, rfl⟩)
      exact htree.path_eq (hsub path hpath) (hsub other hother) hsame
  | outside houtside hload =>
      obtain ⟨stage, houter⟩ := SourceTree.loaded_of_load hdisk hdir hload
      exact houter.path_eq (mem_paths_of_mem_ofTree hpath)
        (mem_paths_of_mem_ofTree hother) hsame

end Scope

/-! ## The jobs of a folder -/

/-- Cutting listed keys misses none. -/
theorem missed_of_sublist {path : Path} {marker text : List Char} {table : StyleTable}
    {keys : List String} (hmarker : marker.getLast? = some '{')
    (htable : (StyleTable.extract path marker text).1.table = some table)
    (hkeys : keys.Sublist table.keys) : (Literal.cutAll marker text keys).missed = [] := by
  cases hfind : Literal.find? marker text with
  | none => simp [StyleTable.extract, hfind] at htable
  | some literal =>
      obtain ⟨front, body, ps, rest, hlaid, -⟩ := Literal.find?_eq_some_iff.mp hfind
      rw [StyleTable.extract_keys hlaid htable] at hkeys
      exact (StyleTable.cutAll_of_subperm hlaid hmarker
        (StyleTable.subperm_namesOf hkeys)).1

theorem mem_jobs {root : Path} {report : Report} {job : Removal.Job} :
    job ∈ Removal.jobs root [report] ↔
      ∃ file keys, (file, keys) ∈ report ∧ job = ⟨Path.absolutize root ⟨file⟩, keys⟩ := by
  simp [Removal.jobs, eq_comm]

theorem jobs_cons (root : Path) (report : Report) (reports : List Report) :
    Removal.jobs root (report :: reports) =
      Removal.jobs root [report] ++ Removal.jobs root reports := by
  simp [Removal.jobs]

theorem sum_keys_jobs (root : Path) (reports : List Report) :
    ((Removal.jobs root reports).map fun job => job.keys.length).sum =
      (reports.map Report.unused).sum := by
  induction reports with
  | nil => rfl
  | cons report reports ih =>
      rw [jobs_cons, List.map_append, List.sum_append, ih, List.map_cons, List.sum_cons]
      congr 1
      simp only [Removal.jobs, List.flatMap_cons, List.flatMap_nil, List.append_nil,
        List.map_map]
      rfl

section Folder

variable {options : Options} {tree : SourceTree} {targets visited : StyleFiles}
  {found : FolderReport}

/-- The jobs of a folder's report are the visited style files with their unreferenced
keys. -/
theorem ListsUnreferenced.mem_jobs_iff
    (h : ListsUnreferenced reader options tree targets visited found)
    (hback : ∀ path ∈ visited.paths,
      Path.absolutize options.root ⟨Path.reportText options.root path⟩ = path)
    (job : Removal.Job) :
    job ∈ Removal.jobs options.root [found.report] ↔
      ∃ style, (job.path, style) ∈ visited ∧ job.keys ≠ [] ∧
        job.keys = unreferenced reader options tree targets.paths job.path style := by
  rw [mem_jobs]
  constructor
  · rintro ⟨file, keys, hfile, rfl⟩
    obtain ⟨path, hpath, rfl⟩ := h.others file (List.mem_map.mpr ⟨_, hfile, rfl⟩)
    have hlookup := lookup_of_mem h.sorted.nodup hfile
    obtain ⟨⟨path, style⟩, hmem, rfl⟩ := List.mem_map.mp hpath
    rw [hback path hpath]
    rw [h.listed path style hmem] at hlookup
    split at hlookup
    · cases hlookup
    · rename_i hne
      obtain rfl := Option.some.inj hlookup
      exact ⟨style, hmem, hne, rfl⟩
  · rintro ⟨style, hmem, hne, hkeys⟩
    have hlookup := h.listed job.path style hmem
    rw [← hkeys, if_neg hne] at hlookup
    obtain ⟨front, back, hreport, -⟩ := List.lookup_eq_some_iff.mp hlookup
    refine ⟨Path.reportText options.root job.path, job.keys, by simp [hreport], ?_⟩
    rw [hback job.path (List.mem_map.mpr ⟨_, hmem, rfl⟩)]

end Folder

/-- A style file in one of the folders has a key to report. -/
def Reported (reader : Import.Reader) (disk : Disk) (options : Options) (tree : SourceTree)
    (folders : List Path) (path : Path) : Prop :=
  ∃ folder ∈ folders, ∃ targets visited style,
    Scope disk options tree (Path.absolutize options.root folder) targets visited ∧
      (path, style) ∈ visited ∧
        unreferenced reader options tree targets.paths path style ≠ []

theorem Scope.unique {disk : Disk} {options : Options} {tree : SourceTree} {dir : Path}
    {targets visited targets' visited' : StyleFiles}
    (h : Scope disk options tree dir targets visited)
    (h' : Scope disk options tree dir targets' visited') :
    targets = targets' ∧ visited = visited' := by
  cases h with
  | inside hinside =>
      cases h' with
      | inside _ => exact ⟨rfl, rfl⟩
      | outside houtside _ => simp [hinside] at houtside
  | outside houtside hload =>
      cases h' with
      | inside hinside => simp [hinside] at houtside
      | outside _ hload' =>
          obtain rfl := Except.ok.inj (hload.symm.trans hload')
          exact ⟨rfl, rfl⟩

section Jobs

variable {disk : Disk} {options : Options} {tree : SourceTree} {place : List String}

/-- No path of a style file in a folder has a backslash. -/
def PlainIn (disk : Disk) (options : Options) (tree : SourceTree) (folder : Path) : Prop :=
  ∀ targets visited,
    Scope disk options tree (Path.absolutize options.root folder) targets visited →
      ∀ path ∈ visited.paths, '\\' ∉ path.text.toList

/-- The jobs of a folder: they are at different places below the folder, take keys that the
files declare, and are there for all files that are reported. -/
structure Sited (reader : Import.Reader) (disk : Disk) (options : Options)
    (tree : SourceTree) (folders : List Path) (jobs : List Removal.Job) : Prop where
  apart : jobs.Pairwise fun a b => disk.place? a.path ≠ disk.place? b.path
  seen : ∀ job ∈ jobs, ∃ folder ∈ folders, ∃ style bytes,
    Seen disk options (Path.absolutize options.root folder) job.path style bytes ∧
      job.keys.Sublist style.table.keys
  reported : ∀ path,
    Reported reader disk options tree folders path ↔ ∃ job ∈ jobs, job.path = path

theorem sited_of_folderReport (hdisk : disk.WellFormed) (hroot : options.root.IsNormal)
    (htree : SourceTree.Loaded disk options.root tree place) {folder : Path}
    {found : FolderReport} (hplain : PlainIn disk options tree folder)
    (hfound : (folderReport disk options (.ofTree options tree reader) folder reader).1 =
      .ok found) :
    Sited reader disk options tree [folder] (Removal.jobs options.root [found.report]) := by
  obtain ⟨targets, visited, hscope, hreport, hchecked⟩ :=
    exists_scope_of_folderReport htree.sorted hfound
  have hdir := Path.isNormal_absolutize hroot.absolute folder
  obtain ⟨hsorted, hvisited⟩ := hscope.visited_normal hdisk htree hdir
  have hplain := hplain targets visited hscope
  have hlists := listsUnreferenced_of_reportOf hroot htree.sorted hsorted hvisited hplain
    hreport hchecked
  have hback : ∀ path ∈ visited.paths,
      Path.absolutize options.root ⟨Path.reportText options.root path⟩ = path := by
    intro path hpath
    obtain ⟨⟨path, style⟩, hmem, rfl⟩ := List.mem_map.mp hpath
    exact Path.absolutize_reportText hroot (hvisited path style hmem).2 (hplain path hpath)
  have hjobs := hlists.mem_jobs_iff hback
  refine ⟨?_, ?_, ?_⟩
  · have hmap : Removal.jobs options.root [found.report] =
        found.report.map fun entry =>
          ⟨Path.absolutize options.root ⟨entry.1⟩, entry.2⟩ := by
      simp [Removal.jobs]
    rw [hmap]
    refine List.pairwise_map.mpr (hlists.sorted.imp_of_mem ?_)
    intro a b ha hb hlt hsame
    obtain ⟨path, hpath, hfile⟩ := hlists.others a.1 (List.mem_map.mpr ⟨a, ha, rfl⟩)
    obtain ⟨other, hother, hfile'⟩ := hlists.others b.1 (List.mem_map.mpr ⟨b, hb, rfl⟩)
    simp only [hfile, hfile', hback path hpath, hback other hother] at hsame hlt
    rw [hscope.path_eq hdisk htree hdir hpath hother hsame] at hlt
    exact hlt.false
  · intro job hjob
    obtain ⟨style, hmem, -, hkeys⟩ := (hjobs job).mp hjob
    obtain ⟨bytes, hseen⟩ := hscope.exists_seen hdisk hroot htree hdir hmem
    refine ⟨folder, List.mem_singleton_self folder, style, bytes, hseen, ?_⟩
    rw [hkeys]
    exact List.filter_sublist
  · intro path
    constructor
    · rintro ⟨f, hf, targets', visited', style, hscope', hmem, hne⟩
      obtain rfl := List.mem_singleton.mp hf
      obtain ⟨rfl, rfl⟩ := hscope.unique hscope'
      exact ⟨⟨path, _⟩, (hjobs ⟨path, _⟩).mpr ⟨style, hmem, hne, rfl⟩, rfl⟩
    · rintro ⟨job, hjob, rfl⟩
      obtain ⟨style, hmem, hne, hkeys⟩ := (hjobs job).mp hjob
      exact ⟨folder, List.mem_singleton_self folder, targets, visited, style, hscope, hmem,
        hkeys ▸ hne⟩

theorem sited_of_folderReports (hdisk : disk.WellFormed) (hroot : options.root.IsNormal)
    (htree : SourceTree.Loaded disk options.root tree place) {folders : List Path}
    {founds : List FolderReport}
    (hplain : ∀ folder ∈ folders, PlainIn disk options tree folder)
    (hapart : folders.Pairwise (Apart disk options.root))
    (hfounds : List.Forall₂ (fun folder found =>
      (folderReport disk options (.ofTree options tree reader) folder reader).1 = .ok found)
        folders founds) :
    Sited reader disk options tree folders
      (Removal.jobs options.root (founds.map FolderReport.report)) := by
  induction hfounds with
  | nil => exact ⟨.nil, by simp [Removal.jobs], by simp [Removal.jobs, Reported]⟩
  | @cons folder found folders founds hfound hfounds ih =>
      obtain ⟨hfirst, hothers⟩ := List.pairwise_cons.mp hapart
      have hone := sited_of_folderReport hdisk hroot htree (hplain folder (by simp)) hfound
      have hrest := ih (fun f hf => hplain f (by simp [hf])) hothers
      rw [List.map_cons, jobs_cons]
      refine ⟨?_, ?_, ?_⟩
      · refine List.pairwise_append.mpr ⟨hone.apart, hrest.apart, ?_⟩
        intro a ha b hb hsame
        obtain ⟨f, hf, _, _, hseen, -⟩ := hone.seen a ha
        obtain rfl := List.mem_singleton.mp hf
        obtain ⟨g, hg, _, _, hseen', -⟩ := hrest.seen b hb
        obtain ⟨stage, rest, hstage, hplace⟩ := hseen.below
        obtain ⟨stage', rest', hstage', hplace'⟩ := hseen'.below
        rw [hplace, hplace', Option.some.injEq] at hsame
        obtain ⟨hnot, hnot'⟩ := hfirst g hg stage stage' hstage hstage'
        rcases List.prefix_or_prefix_of_prefix ⟨rest, rfl⟩ ⟨rest', hsame.symm⟩ with h | h
        · exact hnot h
        · exact hnot' h
      · intro job hjob
        rcases List.mem_append.mp hjob with hjob | hjob
        · obtain ⟨f, hf, hseen⟩ := hone.seen job hjob
          exact ⟨f, List.mem_cons.mpr (Or.inl (List.mem_singleton.mp hf)), hseen⟩
        · obtain ⟨f, hf, hseen⟩ := hrest.seen job hjob
          exact ⟨f, List.mem_cons_of_mem _ hf, hseen⟩
      · intro path
        have hsplit : Reported reader disk options tree (folder :: folders) path ↔
            Reported reader disk options tree [folder] path ∨
              Reported reader disk options tree folders path := by
          simp [Reported]
        rw [hsplit, hone.reported, hrest.reported]
        simp [or_and_right, exists_or]

end Jobs

/-- What a scan of folders that lie apart reports is removed without a miss, or not at all:
the removal finishes if and only if the bytes of every reported file are a text. -/
theorem scan_apply_iff {disk : Disk} (hdisk : disk.WellFormed) {options : Options}
    (hroot : options.root.IsNormal) (hmarker : options.marker.toList.getLast? = some '{')
    {snapshot : Snapshot} (htake : (Snapshot.take disk options reader).1 = .ok snapshot)
    {folders : List Path} (hapart : folders.Pairwise (Apart disk options.root))
    (hplain : ∀ folder ∈ folders, PlainIn disk options snapshot.tree folder)
    {founds : List FolderReport}
    (hscan : (scan disk options folders reader).1 = .ok founds) :
    let outcome := Removal.apply options.root options.marker.toList disk
      (founds.map FolderReport.report)
    (∀ summary, outcome.result = .ok summary →
        summary.missed = 0 ∧ summary.removed = summary.planned ∧
          summary.planned = (founds.map FolderReport.unused).sum) ∧
      ((∃ summary, outcome.result = .ok summary) ↔
        ∀ path bytes, Reported reader disk options snapshot.tree folders path →
          disk.read path = .ok bytes → ∃ text, Text.decode? bytes = some text) := by
  intro outcome
  obtain ⟨snapshot', htake', hfounds⟩ := exists_take_of_scan hscan
  obtain rfl := Except.ok.inj (htake.symm.trans htake')
  obtain ⟨tree, hload, rfl⟩ := exists_load_of_take htake
  obtain ⟨place, htree⟩ := SourceTree.loaded_of_load hdisk hroot hload
  have hsited := sited_of_folderReports hdisk hroot htree hplain hapart
    (forall₂_of_folderReports hfounds)
  constructor
  · intro summary hresult
    have happlied := Removal.applied_of_runJobs hdisk.rooted hresult
    have hmissed : summary.missed = 0 := by
      refine Removal.missed_of_apart hdisk.rooted hsited.apart ?_ hresult
      intro job hjob q text hnames
      obtain ⟨folder, -, style, bytes, hseen, hkeys⟩ := hsited.seen job hjob
      have hdecode :=
        (Removal.Job.exists_names_of_read hdisk.rooted hseen.read text).mp ⟨q, hnames⟩
      have htable := hseen.table
      rw [Text.decodeLenient, hdecode] at htable
      exact missed_of_sublist hmarker htable hkeys
    have haccounted := happlied.accounted
    refine ⟨hmissed, by omega, ?_⟩
    rw [happlied.planned, sum_keys_jobs, List.map_map]
    rfl
  · refine (Removal.runJobs_eq_ok_iff hdisk.rooted _ _).trans ?_
    constructor
    · intro hnames path bytes hpath hread
      obtain ⟨job, hjob, rfl⟩ := (hsited.reported path).mp hpath
      obtain ⟨q, text, hq⟩ := hnames job hjob
      exact ⟨text, (Removal.Job.exists_names_of_read hdisk.rooted hread text).mp ⟨q, hq⟩⟩
    · intro hdecode job hjob
      obtain ⟨folder, -, style, bytes, hseen, -⟩ := hsited.seen job hjob
      obtain ⟨text, htext⟩ :=
        hdecode job.path bytes ((hsited.reported job.path).mpr ⟨job, hjob, rfl⟩) hseen.read
      obtain ⟨q, hq⟩ :=
        (Removal.Job.exists_names_of_read hdisk.rooted hseen.read text).mpr htext
      exact ⟨q, text, hq⟩

/-- A scan of a disk that holds one file. -/
theorem exists_scan_root_file (reader : Import.Reader) {options : Options}
    (hroot : options.root = ⟨"/"⟩) {folder : Path}
    (hfolder : Path.absolutize ⟨"/"⟩ folder = ⟨"/"⟩) (name : String)
    (hadmitted : (SourceTree.readPatterns options.selection.ignore).map
      (SourceTree.isAdmitted · [name]) = .ok true)
    (hdepth : options.selection.maxDepth ≠ 0) (bytes : ByteArray) :
    let snapshot := Snapshot.ofTree options
      [(SourceTree.pathAt ⟨"/"⟩ [name], Text.decodeLenient bytes)] reader
    let disk : Disk := ⟨.folder [(name, .file bytes)]⟩
    (Snapshot.take disk options reader).1 = .ok snapshot ∧ ∃ found,
      (scan disk options [folder] reader).1 = .ok [found] ∧
        found.report =
          reportOf options snapshot.tree snapshot.bindings
            (stylesUnder snapshot.styles ⟨"/"⟩) := by
  intro snapshot disk
  have hinside : (⟨"/"⟩ : Path).startsWith ⟨"/"⟩ = true := by decide +kernel
  simp only [disk, scan, Snapshot.take, hroot, SourceTree.load_root_file hadmitted hdepth,
    folderReports, folderReport, hfolder, Disk.node_root, hinside, if_true]
  exact ⟨rfl, _, rfl, rfl⟩

/-- A project whose one style file has one key. -/
theorem scan_apply_iff_one :
    let options : Options :=
      { root := ⟨"/"⟩, marker := String.ofList ['(', '{'], selection := ⟨[], 1⟩ }
    let disk : Disk := ⟨.folder [("a.ts", .file (Text.encode "({ a: {} })".toList))]⟩
    ∃ founds summary, (scan disk options [⟨"."⟩]).1 = .ok founds ∧
      (Removal.apply options.root options.marker.toList disk
        (founds.map FolderReport.report)).result = .ok summary ∧
      summary.missed = 0 ∧ summary.removed = 1 := by
  intro options disk
  have hread : ∀ bytes, Disk.read ⟨.folder [("a.ts", .file bytes)]⟩ ⟨"/a.ts"⟩ = .ok bytes :=
    Disk.read_one_file (by decide +kernel)
  have hdisk : disk.WellFormed :=
    SourceTree.wellFormed_root_file (by decide +kernel : Component.IsName "a.ts") _
  have hroot : options.root.IsNormal := ⟨by decide +kernel, by decide +kernel⟩
  have hmarker : options.marker.toList.getLast? = some '{' := by decide +kernel
  have hpath : SourceTree.pathAt ⟨"/"⟩ ["a.ts"] = ⟨"/a.ts"⟩ := by decide +kernel
  have hoptions : options.root = ⟨"/"⟩ := rfl
  have hfolder : Path.absolutize ⟨"/"⟩ ⟨"."⟩ = ⟨"/"⟩ := by decide +kernel
  obtain ⟨htake, found, hscan, hreport⟩ := exists_scan_root_file Import.read hoptions
    hfolder "a.ts" rfl one_ne_zero (Text.encode "({ a: {} })".toList)
  rw [Text.decodeLenient_encode, hpath] at htake hreport
  have hunused : found.unused = 1 := by
    rw [FolderReport.unused, hreport]
    decide +kernel
  -- the only style file that can be visited
  have hvisited : ∀ folder ∈ [(⟨"."⟩ : Path)], ∀ targets visited,
      Scope disk options [(⟨"/a.ts"⟩, "({ a: {} })".toList)]
        (Path.absolutize options.root folder) targets visited →
        ∀ path ∈ visited.paths, path = ⟨"/a.ts"⟩ := by
    intro folder hfolder targets visited hscope path hvisited
    obtain rfl := List.mem_singleton.mp hfolder
    have hinside : (Path.absolutize options.root ⟨"."⟩).startsWith options.root = true := by
      decide +kernel
    cases hscope with
    | outside houtside _ => simp [hinside] at houtside
    | inside _ =>
        obtain ⟨entry, hentry, rfl⟩ := List.mem_map.mp hvisited
        have hmem := mem_paths_of_mem_ofTree
          (List.mem_map.mpr ⟨entry, List.mem_of_mem_filter hentry, rfl⟩)
        exact List.mem_singleton.mp hmem
  have hplain : ∀ folder ∈ [(⟨"."⟩ : Path)], PlainIn disk options
      [(⟨"/a.ts"⟩, "({ a: {} })".toList)] folder := by
    intro folder hfolder targets visited hscope path hpath
    rw [hvisited folder hfolder targets visited hscope path hpath]
    decide +kernel
  obtain ⟨hcounts, hiff⟩ := scan_apply_iff hdisk hroot hmarker htake
    (List.pairwise_singleton _ _) hplain hscan
  have hdecodes : ∀ path bytes, Reported Import.read disk options
      [(⟨"/a.ts"⟩, "({ a: {} })".toList)] [⟨"."⟩] path →
      disk.read path = .ok bytes → ∃ text, Text.decode? bytes = some text := by
    rintro path bytes ⟨folder, hfolder, targets, visited, style, hscope, hmem, -⟩ hbytes
    rw [hvisited folder hfolder targets visited hscope path
      (List.mem_map.mpr ⟨_, hmem, rfl⟩),
      hread] at hbytes
    obtain rfl := Except.ok.inj hbytes
    exact ⟨_, Text.decode?_encode _⟩
  obtain ⟨summary, hresult⟩ := hiff.mpr hdecodes
  obtain ⟨hmissed, hremoved, hplanned⟩ := hcounts summary hresult
  refine ⟨[found], summary, hscan, hresult, hmissed, ?_⟩
  rw [hremoved, hplanned]
  simpa using hunused

/-- Bytes that are no text, and a backslash in a name, stop a removal. -/
theorem scan_apply_stops :
    let options : Options :=
      { root := ⟨"/"⟩, marker := String.ofList ['(', '{'], selection := ⟨[], 1⟩ }
    let text : ByteArray := ⟨#[40, 123, 32, 97, 58, 32, 123, 125, 32, 125, 41]⟩
    let noText : ByteArray := ⟨#[40, 123, 32, 97, 58, 32, 123, 125, 32, 125, 41, 255]⟩
    let stops := fun (disk : Disk) (report : Report) (e : ScanError) => ∃ found,
      (scan disk options [⟨"."⟩]).1 = .ok [found] ∧ found.report = report ∧
        (Removal.apply options.root options.marker.toList disk [found.report]).result =
          .error e
    stops ⟨.folder [("a.ts", .file noText)]⟩ [("a.ts", ["a"])] (.read ⟨"/a.ts"⟩ .notText) ∧
      stops ⟨.folder [("a\\b.ts", .file text)]⟩ [("a/b.ts", ["a"])]
        (.read ⟨"/a/b.ts"⟩ .noEntry) := by
  intro options text noText stops
  have hread : ∀ bytes, Disk.read ⟨.folder [("a.ts", .file bytes)]⟩ ⟨"/a.ts"⟩ = .ok bytes :=
    Disk.read_one_file (by decide +kernel)
  have hmissing : ∀ bytes, Disk.readText ⟨.folder [("a\\b.ts", .file bytes)]⟩ ⟨"/a/b.ts"⟩ =
      .error .noEntry := by
    have hpieces : (Path.pieces ⟨"/a/b.ts"⟩).map String.ofList = ["", "a", "b.ts"] := by
      decide +kernel
    simp [Disk.readText, Disk.read, Disk.node, Disk.locate, hpieces, Disk.follow, Node.get?,
      Node.child?, List.lookup_cons]
  have hroot : options.root = ⟨"/"⟩ := rfl
  have hfolder : Path.absolutize ⟨"/"⟩ ⟨"."⟩ = ⟨"/"⟩ := by decide +kernel
  constructor
  · obtain ⟨-, found, hfound, hreport⟩ := exists_scan_root_file Import.read hroot hfolder
      "a.ts" rfl one_ne_zero noText
    have hkeys : found.report = [("a.ts", ["a"])] := by
      rw [hreport]
      decide +kernel
    have hjobs : Removal.jobs ⟨"/"⟩ [found.report] = [⟨⟨"/a.ts"⟩, ["a"]⟩] := by
      rw [hkeys]
      decide +kernel
    have hdecode : Text.decode? noText = none := by decide +kernel
    refine ⟨found, hfound, hkeys, ?_⟩
    simp only [Removal.apply, hroot, hjobs, Removal.runJobs, Removal.Job.run, Disk.readText,
      hread, hdecode]
  · obtain ⟨-, found, hfound, hreport⟩ := exists_scan_root_file Import.read hroot hfolder
      "a\\b.ts" rfl one_ne_zero text
    have hkeys : found.report = [("a/b.ts", ["a"])] := by
      rw [hreport]
      decide +kernel
    have hjobs : Removal.jobs ⟨"/"⟩ [found.report] = [⟨⟨"/a/b.ts"⟩, ["a"]⟩] := by
      rw [hkeys]
      decide +kernel
    refine ⟨found, hfound, hkeys, ?_⟩
    simp only [Removal.apply, hroot, hjobs, Removal.runJobs, Removal.Job.run, hmissing]

end StylePrune.Analysis
