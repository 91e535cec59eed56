import StylePrune.Program
import StylePrune.Proofs.Analysis.Removal
import StylePrune.Proofs.Removal.Frame
import StylePrune.Proofs.Report.File

/-!
# Staged removal

What is unused can be removed in one run, or reported in one run and removed by the saved
report in another.  The two ways lead to the same: they succeed together, print the same
summary and leave the same files, but for the report file.  The report must only not be
saved over a file that it names or over the settings file.
-/

namespace StylePrune

/-! ## Settings -/

namespace Settings

/-- The path of the settings file, whether or not it is there. -/
def filePath (cwd : Path) (config : Option String) : Path :=
  cwd.join ⟨config.getD defaultFile⟩

/-- Without a settings file the defaults stand. -/
theorem load_of_absent {disk : Disk} {cwd : Path} {overrides : Overrides}
    (hconfig : overrides.config = none)
    (h : disk.isPresent (cwd.join ⟨defaultFile⟩) = false) :
    load disk cwd overrides = merge cwd overrides {} := by
  simp only [load, readFile, file?, hconfig, h, Bool.false_eq_true, if_false]

/-- Settings do not depend on what stands at a place that the settings file's path does not
lead to. -/
theorem load_of_sameBut {spared : List String} {disk other : Disk}
    (h : disk.SameBut spared other) {cwd : Path} (hcwd : cwd.isAbsolute = true)
    {overrides : Overrides}
    (hpath : disk.place? (filePath cwd overrides.config) ≠ some spared)
    {settings : Settings} (hload : load disk cwd overrides = .ok settings) :
    load other cwd overrides = .ok settings := by
  have hread : ∀ text, disk.readText (filePath cwd overrides.config) = .ok text →
      other.readText (filePath cwd overrides.config) = .ok text :=
    fun text => (h.readText_eq_ok_iff hpath).mpr
  have hfile : ∀ file, readFile disk cwd overrides = .ok file →
      readFile other cwd overrides = .ok file := by
    intro file hfile
    unfold readFile file? at hfile ⊢
    cases hgiven : overrides.config with
    | some given =>
        simp only [filePath, hgiven, Option.getD_some] at hfile hread ⊢
        split at hfile
        · cases hfile
        · rename_i text htext
          rw [hread text htext]
          exact hfile
    | none =>
        simp only [filePath, hgiven, Option.getD_none] at hpath hfile hread ⊢
        rw [h.isPresent hpath]
        cases hpresent : disk.isPresent (cwd.join ⟨defaultFile⟩) with
        | false => simpa [hpresent] using hfile
        | true =>
            simp only [hpresent, if_true, Path.join_join hcwd] at hfile ⊢
            split at hfile
            · cases hfile
            · rename_i text htext
              rw [hread text htext]
              exact hfile
  unfold load at hload
  split at hload
  · cases hload
  · rename_i file hdisk
    rw [load, hfile file hdisk]
    exact hload

/-- The root folder and the settings file that are asked for decide on the options. -/
theorem options_eq_of_load {disk : Disk} {cwd : Path} {overrides more : Overrides}
    (hroot : more.root = overrides.root) (hconfig : more.config = overrides.config)
    {settings other : Settings} (hload : load disk cwd overrides = .ok settings)
    (hother : load disk cwd more = .ok other) : other.options = settings.options := by
  have hfile : readFile disk cwd more = readFile disk cwd overrides := by
    simp only [readFile, file?, hconfig]
  unfold load at hload hother
  rw [hfile] at hother
  split at hload
  · cases hload
  · rename_i file hread
    simp only [hread, merge] at hload hother
    split at hload
    · rename_i hmarker
      rw [if_pos hmarker] at hother
      obtain rfl := Except.ok.inj hload
      obtain rfl := Except.ok.inj hother
      simp only [hroot]
    · cases hload

end Settings

namespace Program

variable {reader : Import.Reader}

/-! ## Runs in their modes -/

/-- How a request has results printed. -/
def Request.style (request : Request) (settings : Settings) : Display.Style :=
  ⟨settings.format, settings.color.enabled request.isTerminal request.env⟩

/-- A request works from a folder with a root folder and a settings file as asked for: its
words are read as an invocation, and this gives settings. -/
structure Prepared (disk : Disk) (cwd : Path) (root config : Option String)
    (request : Request) (invocation : CommandLine.Invocation) (settings : Settings) :
    Prop where
  folder : request.cwd = cwd
  noSchema : CommandLine.asksForSchema request.words = false
  parsed : CommandLine.parse request.words = .ok invocation
  sameRoot : invocation.overrides.root = root
  sameConfig : invocation.overrides.config = config
  loaded : Settings.load disk cwd invocation.overrides = .ok settings

/-- The paths of the folders that are asked for. -/
def pathsOf (cwd : Path) (folders : List String) : List Path :=
  folders.map fun folder => Path.absolutize cwd ⟨folder⟩

/-- The lines of the folders. -/
def folderLines (style : Display.Style) (folders : List String)
    (founds : List FolderReport) :
    String :=
  String.join (List.zipWith
    (fun folder found => Display.folder style folder found.unused found.checked)
      folders founds)

theorem run_of_parse {request : Request} {invocation : CommandLine.Invocation}
    (hschema : CommandLine.asksForSchema request.words = false)
    (hparse : CommandLine.parse request.words = .ok invocation) (disk : Disk) :
    let course := carryOut disk request invocation reader
    ((run disk request reader).code = 0 ↔ course.failure = none) ∧
      (run disk request reader).out = course.out ∧
        (run disk request reader).disk = course.disk := by
  intro course
  simp only [run, hschema, hparse, Bool.false_eq_true, if_false]
  split
  · rename_i failure hfailure
    simp [course, hfailure]
  · rename_i hnone
    simp [course, hnone]

section Study

variable {disk : Disk} {options : Options} {snapshot : Snapshot} {cwd : Path}

-- the match is written out, as the equations of `study` would open the report
theorem study_cons (style : Display.Style) (folder : String) (folders : List String) :
    study disk options style cwd snapshot (folder :: folders) reader =
      match Analysis.folderReport disk options snapshot
          (Path.absolutize cwd ⟨folder⟩) reader with
      | (.error e, events) => ⟨"", events, .error e⟩
      | (.ok found, events) =>
        let rest := study disk options style cwd snapshot folders reader
        ⟨Display.folder style folder found.unused found.checked ++ rest.out,
          events ++ rest.events, rest.result.map (found :: ·)⟩ := by
  rfl

theorem study_cons_of_ok {folder : String} {found : FolderReport}
    (h : (Analysis.folderReport disk options snapshot
      (Path.absolutize cwd ⟨folder⟩) reader).1 = .ok found)
    (style : Display.Style) (folders : List String) :
    (study disk options style cwd snapshot (folder :: folders) reader).result =
        (study disk options style cwd snapshot folders reader).result.map (found :: ·) ∧
      (study disk options style cwd snapshot (folder :: folders) reader).out =
        Display.folder style folder found.unused found.checked ++
          (study disk options style cwd snapshot folders reader).out := by
  obtain ⟨events, hpair⟩ : ∃ events, Analysis.folderReport disk options snapshot
      (Path.absolutize cwd ⟨folder⟩) reader = (.ok found, events) := ⟨_, Prod.ext h rfl⟩
  rw [study_cons, hpair]
  exact ⟨rfl, rfl⟩

/-- The folders are reported on as in an analysis, and each has a line. -/
theorem study_of_folderReports (style : Display.Style) {folders : List String}
    {founds : List FolderReport}
    (h : (Analysis.folderReports disk options snapshot (pathsOf cwd folders) reader).1 =
      .ok founds) :
    (study disk options style cwd snapshot folders reader).result = .ok founds ∧
      (study disk options style cwd snapshot folders reader).out =
        folderLines style folders founds := by
  have hfounds := Analysis.forall₂_of_folderReports h
  clear h
  induction folders generalizing founds with
  | nil =>
      cases hfounds
      exact ⟨rfl, rfl⟩
  | cons folder folders ih =>
      rw [pathsOf, List.map_cons] at hfounds
      obtain ⟨found, rest, hfound, hrest, rfl⟩ := List.forall₂_cons_left_iff.mp hfounds
      obtain ⟨hresult, hout⟩ := ih hrest
      obtain ⟨hresult', hout'⟩ := study_cons_of_ok hfound style folders
      rw [hresult', hout', hresult, hout]
      refine ⟨rfl, ?_⟩
      rw [folderLines, folderLines, List.zipWith_cons_cons, String.join_cons]

end Study

section Modes

variable {disk : Disk} {settings : Settings} {style : Display.Style}

/-- A removal under the same options ends alike on disks that differ at a place to which
no path of the reports leads: on both it prints the same summary, or it fails and prints
nothing. -/
theorem removeAll_of_sameBut {spared : List String} {other : Disk}
    (h : disk.SameBut spared other) {more : Settings}
    (hoptions : more.options = settings.options) {reports : List Report}
    (hjobs : ∀ job ∈ Removal.jobs settings.options.root reports,
      disk.place? job.path ≠ some spared) (style style' : Display.Style) :
    let course := removeAll disk settings style reports
    let course' := removeAll other more style' reports
    course.disk.SameBut spared course'.disk ∧
      ((∃ summary, course.failure = none ∧ course'.failure = none ∧
          course.out = Display.summary style summary ∧
          course'.out = Display.summary style' summary) ∨
        course.failure ≠ none ∧ course'.failure ≠ none ∧ course.out = "" ∧
          course'.out = "") := by
  obtain ⟨hresult, hsame⟩ :=
    Removal.runJobs_of_sameBut h settings.options.marker.toList hjobs
  simp only [removeAll, hoptions, Removal.apply]
  cases hdisk : (Removal.runJobs settings.options.marker.toList disk
      (Removal.jobs settings.options.root reports)).result with
  | error e =>
      cases hother : (Removal.runJobs settings.options.marker.toList other
          (Removal.jobs settings.options.root reports)).result with
      | error e' => exact ⟨hsame, Or.inr ⟨by simp, by simp, rfl, rfl⟩⟩
      | ok summary => simp [hdisk, hother, Except.toOption] at hresult
  | ok summary =>
      cases hother : (Removal.runJobs settings.options.marker.toList other
          (Removal.jobs settings.options.root reports)).result with
      | error e' => simp [hdisk, hother, Except.toOption] at hresult
      | ok summary' =>
          have heq : summary' = summary := by
            simpa [hdisk, hother, Except.toOption] using hresult
          exact ⟨hsame, Or.inl ⟨summary, rfl, rfl, rfl, by rw [heq]⟩⟩

/-- What a removal with one job does. -/
theorem removeAll_of_names (hdisk : disk.Rooted) {reports : List Report} {job : Removal.Job}
    (hjobs : Removal.jobs settings.options.root reports = [job]) {place : List String}
    {text : List Char} (hnames : job.Names disk place text) (style : Display.Style) :
    let cut := Literal.cutAll settings.options.marker.toList text job.keys
    let course := removeAll disk settings style reports
    course.failure = none ∧ course.out = Display.summary style (Removal.summaryOf job cut) ∧
      course.disk.look place = some (.file (Text.encode cut.text)) := by
  intro cut course
  obtain ⟨hresult, hlook⟩ :=
    Removal.runJobs_singleton_of_names hdisk settings.options.marker.toList hnames
  simp only [course, removeAll, Removal.apply, hjobs, hresult]
  exact ⟨trivial, rfl, hlook⟩

/-- What follows an analysis that succeeds decides on how a run ends. -/
theorem runFolders_of_scan {cwd : Path} {folders : List String} {founds : List FolderReport}
    (h : (Analysis.scan disk settings.options (pathsOf cwd folders) reader).1 = .ok founds)
    (style : Display.Style) (remove : Bool) :
    let reports := founds.map FolderReport.report
    let course := if remove then removeAll disk settings style reports
      else saveAll disk settings style reports
    let whole := runFolders disk settings style cwd remove folders reader
    whole.failure = course.failure ∧ whole.disk = course.disk ∧
      whole.out = folderLines style folders founds ++
        (if course.failure = none then
          course.out ++ Display.total style (founds.map FolderReport.unused).sum
        else course.out) := by
  intro reports course whole
  obtain ⟨snapshot, htake, hfounds⟩ := Analysis.exists_take_of_scan h
  obtain ⟨events, hpair⟩ : ∃ events,
      Snapshot.take disk settings.options reader = (.ok snapshot, events) :=
    ⟨_, Prod.ext htake rfl⟩
  obtain ⟨hresult, hout⟩ := study_of_folderReports style hfounds
  have hwhole : whole = (course.closedBy (Display.total style
      ((reports.map Report.unused).foldr (· + ·) 0))).behind
        (folderLines style folders founds)
        (events ++
          (study disk settings.options style cwd snapshot folders reader).events) := by
    simp only [whole, runFolders, hpair, hresult, hout]
    rfl
  have htotal : (reports.map Report.unused).foldr (· + ·) 0 =
      (founds.map FolderReport.unused).sum := by
    simp only [reports, List.map_map]
    rfl
  rw [hwhole, htotal]
  cases hfailure : course.failure with
  | none => simp [Course.closedBy, Course.behind, hfailure]
  | some failure => simp [Course.closedBy, Course.behind, hfailure]

end Modes

section Runs

variable {disk : Disk} {cwd : Path} {root config : Option String} {request : Request}
  {invocation : CommandLine.Invocation} {settings : Settings}

/-- An invocation asks for folders to be looked at, and for what is found there to be
removed or not. -/
structure LooksAt (invocation : CommandLine.Invocation) (folders : List String)
    (remove : Bool) :
    Prop where
  folders : invocation.folders = folders
  remove : invocation.remove = remove
  noReport : invocation.removeJson = none

theorem Prepared.of_sameBut (h : Prepared disk cwd root config request invocation settings)
    (hcwd : cwd.isAbsolute = true) {spared : List String} {other : Disk}
    (hsame : disk.SameBut spared other)
    (hpath : disk.place? (Settings.filePath cwd config) ≠ some spared) :
    Prepared other cwd root config request invocation settings := by
  refine { h with loaded := ?_ }
  refine Settings.load_of_sameBut hsame hcwd ?_ h.loaded
  rw [h.sameConfig]
  exact hpath

/-- A run on folders whose analysis succeeds. -/
theorem Prepared.run_folders (h : Prepared disk cwd root config request invocation settings)
    {folders : List String} {remove : Bool} (hlooks : LooksAt invocation folders remove)
    (hfolders : folders ≠ []) {founds : List FolderReport}
    (hscan : (Analysis.scan disk settings.options (pathsOf cwd folders) reader).1 =
      .ok founds) :
    let style := request.style settings
    let reports := founds.map FolderReport.report
    let course := if remove then removeAll disk settings style reports
      else saveAll disk settings style reports
    ((run disk request reader).code = 0 ↔ course.failure = none) ∧
      (run disk request reader).disk = course.disk ∧
      (run disk request reader).out = folderLines style folders founds ++
        (if course.failure = none then
          course.out ++ Display.total style (founds.map FolderReport.unused).sum
        else course.out) := by
  have hcarry : carryOut disk request invocation reader =
      runFolders disk settings (request.style settings) cwd remove folders reader := by
    obtain ⟨folder, rest, rfl⟩ := List.exists_cons_of_ne_nil hfolders
    simp only [carryOut, h.folder, h.loaded, hlooks.noReport, hlooks.folders, hlooks.remove]
    rfl
  obtain ⟨hcode, hout, hleft⟩ := run_of_parse h.noSchema h.parsed disk
  obtain ⟨hfailure, hafter, hprinted⟩ :=
    runFolders_of_scan hscan (request.style settings) remove
  rw [hcarry] at hcode hout hleft
  refine ⟨?_, hleft.trans hafter, hout.trans hprinted⟩
  rw [hcode, hfailure]

/-- A run by a report that is there. -/
theorem Prepared.run_report (h : Prepared disk cwd root config request invocation settings)
    {report : String} (hreport : invocation.removeJson = some report)
    {reports : List Report}
    (hload : Report.load disk (Path.absolutize cwd ⟨report⟩) = .ok reports) :
    let course := removeAll disk settings (request.style settings) reports
    ((run disk request reader).code = 0 ↔ course.failure = none) ∧
      (run disk request reader).disk = course.disk ∧
        (run disk request reader).out = course.out := by
  have hcarry : carryOut disk request invocation reader =
      removeAll disk settings (request.style settings) reports := by
    simp only [carryOut, h.folder, h.loaded, hreport, runReport, hload]
    rfl
  obtain ⟨hcode, hout, hleft⟩ := run_of_parse h.noSchema h.parsed disk
  rw [hcarry] at hcode hout hleft
  exact ⟨hcode, hleft, hout⟩

end Runs

/-- Removing by a saved report is removing at once: the two ways succeed together, leave the
same at every place but that of the report, and print the same summary.  The settings of all
three requests are those on the disk before the first run. -/
theorem staged_removal_iff_direct {disk : Disk} (hdisk : disk.Rooted) {cwd : Path}
    (hcwd : cwd.isAbsolute = true) {root config : Option String}
    {first second direct : Request} {reporting replaying removing : CommandLine.Invocation}
    {settings replayed atOnce : Settings}
    (hfirst : Prepared disk cwd root config first reporting settings)
    (hsecond : Prepared disk cwd root config second replaying replayed)
    (hdirect : Prepared disk cwd root config direct removing atOnce) {folders : List String}
    (hfolders : folders ≠ []) (hreporting : LooksAt reporting folders false)
    (hremoving : LooksAt removing folders true) {report : String}
    (hreplaying : replaying.removeJson = some report) {founds : List FolderReport}
    (hscan : (Analysis.scan disk settings.options (pathsOf cwd folders) reader).1 =
      .ok founds)
    {saved : Disk}
    (hsaved : Report.save disk settings.output (founds.map FolderReport.report) = .ok saved)
    (hreport : disk.place? (Path.absolutize cwd ⟨report⟩) = disk.place? settings.output)
    (hfiles : ∀ found ∈ founds, ∀ file ∈ found.report.map Prod.fst,
      disk.place? (Path.absolutize settings.options.root ⟨file⟩) ≠
        disk.place? settings.output)
    (hconfig : disk.place? (Settings.filePath cwd config) ≠ disk.place? settings.output) :
    let reported := run disk first reader
    let staged := run reported.disk second reader
    let removed := run disk direct reader
    let lines := folderLines (direct.style atOnce) folders founds
    reported.code = 0 ∧ (staged.code = 0 ↔ removed.code = 0) ∧
      (∀ place, disk.place? settings.output ≠ some place →
        staged.disk.look place = removed.disk.look place) ∧
      (staged.code = 0 → ∃ summary,
        staged.out = Display.summary (second.style replayed) summary ∧
          removed.out = lines ++ (Display.summary (direct.style atOnce) summary ++
            Display.total (direct.style atOnce) (founds.map FolderReport.unused).sum)) ∧
      (staged.code ≠ 0 → staged.out = "" ∧ removed.out = lines) := by
  intro reported staged removed lines
  have hreplayed := Settings.options_eq_of_load
    (hsecond.sameRoot.trans hfirst.sameRoot.symm)
    (hsecond.sameConfig.trans hfirst.sameConfig.symm) hfirst.loaded hsecond.loaded
  have hatOnce := Settings.options_eq_of_load (hdirect.sameRoot.trans hfirst.sameRoot.symm)
    (hdirect.sameConfig.trans hfirst.sameConfig.symm) hfirst.loaded hdirect.loaded
  obtain ⟨place, hplace, hsame, hload⟩ :=
    Report.load_of_save hdisk (Analysis.sorted_of_scan hscan) hsaved
  rw [hplace] at hreport hconfig
  have hjobs : ∀ job ∈ Removal.jobs settings.options.root (founds.map FolderReport.report),
      disk.place? job.path ≠ some place := by
    intro job hjob
    simp only [Removal.jobs, List.mem_flatMap, List.mem_map] at hjob
    obtain ⟨_, ⟨found, hfound, rfl⟩, ⟨file, keys⟩, hfile, rfl⟩ := hjob
    rw [← hplace]
    exact hfiles found hfound file (List.mem_map.mpr ⟨_, hfile, rfl⟩)
  obtain ⟨hreported, hstaged⟩ : reported.code = 0 ∧ staged = run saved second reader := by
    obtain ⟨hcode, hleft, -⟩ := hfirst.run_folders hreporting hfolders hscan
    simp only [saveAll, hsaved, Bool.false_eq_true, if_false] at hcode hleft
    exact ⟨hcode.mpr trivial, congrArg (fun disk => run disk second reader) hleft⟩
  -- the second run works with the same settings and reads the same reports
  obtain ⟨hcode, hleft, hout⟩ :=
    (hsecond.of_sameBut hcwd hsame hconfig).run_report hreplaying (hload _ hreport)
  rw [← hatOnce] at hscan hjobs
  obtain ⟨hcode', hleft', hout'⟩ := hdirect.run_folders hremoving hfolders hscan
  simp only [if_true] at hcode' hleft' hout'
  obtain ⟨halike, hends⟩ := removeAll_of_sameBut hsame (hreplayed.trans hatOnce.symm) hjobs
    (direct.style atOnce) (second.style replayed)
  have hlook : ∀ q, disk.place? settings.output ≠ some q →
      staged.disk.look q = removed.disk.look q := by
    intro q hq
    have hne : q ≠ place := fun heq => hq (heq ▸ hplace)
    rw [hstaged, hleft, hleft']
    exact halike.look q hne
  refine ⟨hreported, ?_, hlook, ?_⟩
  · rw [hstaged, hcode, hcode']
    rcases hends with ⟨summary, hended, hended', -⟩ | ⟨hended, hended', -⟩
    · simp only [hended, hended']
    · simp only [hended, hended']
  · rw [hstaged, hout, hout']
    rcases hends with
      ⟨summary, hended, hended', hprint, hprint'⟩ | ⟨hended, hended', hprint, hprint'⟩
    · rw [if_pos hended, hprint, hprint']
      exact ⟨fun _ => ⟨summary, rfl, rfl⟩, fun hne => (hne (hcode.mpr hended')).elim⟩
    · rw [if_neg hended, hprint, hprint']
      exact ⟨fun h => (hended' (hcode.mp h)).elim, fun _ => ⟨rfl, String.append_empty⟩⟩

/-! ## A project of one file -/

section OneFile

/-- The settings of a run in the root folder that nothing changes. -/
def rootSettings : Settings :=
  ⟨{ root := ⟨"/"⟩ }, ⟨"/unused-styles.json"⟩, .human, .auto⟩

variable {file : String} (hfile : file ≠ "unused-styles.toml") (bytes : ByteArray)

include hfile in
/-- Beside the one file there is no settings file. -/
theorem load_one_file :
    Settings.load ⟨.folder [(file, .file bytes)]⟩ ⟨"/"⟩ {} = .ok rootSettings := by
  have hpath : Path.join ⟨"/"⟩ ⟨Settings.defaultFile⟩ = ⟨"/unused-styles.toml"⟩ := by
    decide +kernel
  have habsent : Disk.isPresent ⟨.folder [(file, .file bytes)]⟩ ⟨"/unused-styles.toml"⟩ =
      false := by
    refine Disk.isPresent_one_file_of_ne ?_ hfile.symm bytes
    decide +kernel
  rw [Settings.load_of_absent rfl (by rw [hpath, habsent])]
  decide +kernel

include hfile in
theorem prepared_one_file {words : List String} {invocation : CommandLine.Invocation}
    (hschema : CommandLine.asksForSchema words = false)
    (hparse : CommandLine.parse words = .ok invocation)
    (hplain : invocation.overrides = {}) :
    Prepared ⟨.folder [(file, .file bytes)]⟩ ⟨"/"⟩ none none ⟨words, [], ⟨"/"⟩, false⟩
      invocation rootSettings := by
  refine ⟨rfl, hschema, hparse, ?_, ?_, ?_⟩
  · rw [hplain]
  · rw [hplain]
  · rw [hplain, load_one_file hfile]

theorem place?_output_one_file :
    Disk.place? ⟨.folder [(file, .file bytes)]⟩ rootSettings.output =
      some ["unused-styles.json"] := by
  refine Disk.place?_one_file ?_ file bytes
  decide +kernel

theorem place?_filePath_one_file :
    Disk.place? ⟨.folder [(file, .file bytes)]⟩ (Settings.filePath ⟨"/"⟩ none) =
      some ["unused-styles.toml"] := by
  refine Disk.place?_one_file ?_ file bytes
  decide +kernel

theorem exists_save_one_file (hother : file ≠ "unused-styles.json")
    (reports : List Report) :
    ∃ saved, Report.save ⟨.folder [(file, .file bytes)]⟩ rootSettings.output reports =
      .ok saved := by
  have hlocate : Disk.locate ⟨.folder [(file, .file bytes)]⟩ rootSettings.output =
      .ok (.absent ["unused-styles.json"]) := by
    have hpath : Disk.IsAtRoot rootSettings.output "unused-styles.json" := by decide +kernel
    rw [Disk.locate_one_file hpath, if_neg hother.symm]
  have hlast : rootSettings.output.text.toList.getLast? ≠ some '/' := by decide +kernel
  rw [Report.save, Disk.write_of_absent hlocate hlast]
  exact ⟨_, rfl⟩

end OneFile

/-- The one key of the one style file, removed in both ways. -/
theorem staged_removal_iff_direct_one :
    let text := "StyleSheet.create({ a: {} })".toList
    let disk : Disk := ⟨.folder [("a.ts", .file (Text.encode text))]⟩
    let request (words : List String) : Request := ⟨words, [], ⟨"/"⟩, false⟩
    let reported := run disk (request ["."])
    let staged := run reported.disk (request ["--remove-json", "unused-styles.json"])
    let removed := run disk (request ["--remove", "."])
    let left := some (Sight.file (Text.encode "StyleSheet.create({ })".toList))
    let summary := "Remove summary planned=1 removed=1 missed=0 files=1\n"
    reported.code = 0 ∧ staged.code = 0 ∧ removed.code = 0 ∧
      staged.disk.look ["a.ts"] = left ∧ removed.disk.look ["a.ts"] = left ∧
      staged.out = summary ∧
      removed.out = ". 1\n" ++ (summary ++ ">Total Unused styles: 1\n") := by
  intro text disk request reported staged removed left summary
  have hdisk : disk.Rooted := rfl
  have hreporting : CommandLine.parse ["."] = .ok { folders := ["."] } := rfl
  have hreplaying : CommandLine.parse ["--remove-json", "unused-styles.json"] =
      .ok { removeJson := some "unused-styles.json" } := rfl
  have hremoving : CommandLine.parse ["--remove", "."] =
      .ok { folders := ["."], remove := true } := rfl
  have hprepared : ∀ words invocation, CommandLine.asksForSchema words = false →
      CommandLine.parse words = .ok invocation → invocation.overrides = {} →
      Prepared disk ⟨"/"⟩ none none (request words) invocation rootSettings :=
    fun _ _ => prepared_one_file (by decide) _
  have hremove := hprepared ["--remove", "."] _ (by decide +kernel) hremoving rfl
  have hfolder : Path.absolutize ⟨"/"⟩ ⟨"/"⟩ = ⟨"/"⟩ := by decide +kernel
  obtain ⟨-, found, hscan, hreport⟩ := Analysis.exists_scan_root_file Import.read
    (show rootSettings.options.root = ⟨"/"⟩ from rfl) hfolder "a.ts" (by decide +kernel)
    (by decide +kernel) (Text.encode text)
  rw [Text.decodeLenient_encode] at hreport
  have hkeys : found.report = [("a.ts", ["a"])] := by
    rw [hreport]
    decide +kernel
  have hpaths : pathsOf ⟨"/"⟩ ["."] = [⟨"/"⟩] := by decide +kernel
  rw [← hpaths] at hscan
  obtain ⟨saved, hsaved⟩ : ∃ saved, Report.save disk rootSettings.output
      ([found].map FolderReport.report) = .ok saved :=
    exists_save_one_file _ (by decide) _
  have hplace : disk.place? rootSettings.output = some ["unused-styles.json"] :=
    place?_output_one_file _
  have hstyle : disk.place? ⟨"/a.ts"⟩ = some ["a.ts"] :=
    Disk.place?_one_file (by decide +kernel) "a.ts" _
  -- what the removal at once does
  have hjobs : Removal.jobs rootSettings.options.root ([found].map FolderReport.report) =
      [⟨⟨"/a.ts"⟩, ["a"]⟩] := by
    rw [List.map_singleton, hkeys]
    decide +kernel
  have hcut : Literal.cutAll rootSettings.options.marker.toList text ["a"] =
      ⟨"StyleSheet.create({ })".toList, ["a"], []⟩ := by
    decide +kernel
  have hnames : Removal.Job.Names ⟨⟨"/a.ts"⟩, ["a"]⟩ disk ["a.ts"] text :=
    ⟨hstyle, Text.decode?_encode text⟩
  obtain ⟨hended, hprinted, hcleared⟩ := removeAll_of_names hdisk hjobs hnames
    ((request ["--remove", "."]).style rootSettings)
  rw [hcut] at hprinted hcleared
  obtain ⟨hcode, hafter, hout⟩ := hremove.run_folders ⟨rfl, rfl, rfl⟩ (by simp) hscan
  rw [if_pos rfl] at hcode hafter hout
  rw [if_pos hended, hprinted] at hout
  have hlook : removed.disk.look ["a.ts"] = left := by
    rw [show removed.disk = _ from hafter, hcleared]
  have hremoved : removed.code = 0 := hcode.mpr hended
  -- the removal by the report does the same
  have hsame : disk.place? (Path.absolutize ⟨"/"⟩ ⟨"unused-styles.json"⟩) =
      disk.place? rootSettings.output := by
    have habsolute : Path.absolutize ⟨"/"⟩ ⟨"unused-styles.json"⟩ =
        rootSettings.output := by
      decide +kernel
    rw [habsolute]
  have hfiles : ∀ f ∈ [found], ∀ file ∈ f.report.map Prod.fst,
      disk.place? (Path.absolutize rootSettings.options.root ⟨file⟩) ≠
        disk.place? rootSettings.output := by
    have habsolute : Path.absolutize rootSettings.options.root ⟨"a.ts"⟩ = ⟨"/a.ts"⟩ := by
      decide +kernel
    simp [hkeys, habsolute, hplace, hstyle]
  have hsettled : disk.place? (Settings.filePath ⟨"/"⟩ none) ≠
      disk.place? rootSettings.output := by
    rw [hplace, show disk.place? _ = _ from place?_filePath_one_file _]
    decide
  obtain ⟨hcodeReported, hiff, hlooks, hprint, -⟩ := staged_removal_iff_direct hdisk
    (by decide +kernel) (hprepared ["."] _ (by decide +kernel) hreporting rfl)
    (hprepared ["--remove-json", "unused-styles.json"] _ (by decide +kernel) hreplaying rfl)
    hremove (by simp) ⟨rfl, rfl, rfl⟩ ⟨rfl, rfl, rfl⟩ rfl hscan hsaved hsame hfiles hsettled
  have hstaged : staged.code = 0 := hiff.mpr hremoved
  obtain ⟨told, hstagedOut, hremovedOut⟩ := hprint hstaged
  have hline : Display.summary ((request ["--remove", "."]).style rootSettings) told =
      summary := by
    have hboth := hremovedOut.symm.trans hout
    rw [String.append_right_inj, String.append_left_inj] at hboth
    exact hboth.trans (by decide +kernel)
  refine ⟨hcodeReported, hstaged, hremoved, ?_, hlook, hstagedOut.trans hline, ?_⟩
  · refine (hlooks ["a.ts"] ?_).trans hlook
    rw [hplace]
    decide
  · have hunused : found.unused = 1 := by
      rw [FolderReport.unused, hkeys]
      rfl
    have htotal : ([found].map FolderReport.unused).sum = 1 := by
      rw [List.map_singleton, hunused, List.sum_singleton]
    rw [hremovedOut, hline, htotal, folderLines, List.zipWith_cons_cons, hunused]
    rfl

end Program

end StylePrune
