import StylePrune.Proofs.Program.Staging

/-!
# What a run changes

A run reads before it writes.  One that cannot be prepared, or that fails on any of its
folders or on the report it is given, leaves the disk as it was.  One that reports writes
the report file and nothing else.  One that removes rewrites files that its reports name
with at least one key, and makes none.
-/

namespace StylePrune

namespace Disk

/-- What looks different afterwards are files at some of the places: new ones, or old
ones with other bytes. -/
def ChangesIn (places : Set (List String)) (disk after : Disk) : Prop :=
  ∀ place, after.look place = disk.look place ∨
    place ∈ places ∧ (∃ bytes, after.look place = some (.file bytes)) ∧
      (disk.look place = none ∨ ∃ bytes, disk.look place = some (.file bytes))

/-- Where nothing was seen, nothing is seen afterwards. -/
def CreatesNothing (disk after : Disk) : Prop :=
  ∀ place, disk.look place = none → after.look place = none

section Changes

variable {places more : Set (List String)} {disk middle after : Disk}

theorem changesIn_refl (places : Set (List String)) (disk : Disk) :
    ChangesIn places disk disk :=
  fun _ => Or.inl rfl

theorem ChangesIn.mono (h : ChangesIn places disk after) (hmore : places ⊆ more) :
    ChangesIn more disk after :=
  fun place => (h place).imp id fun hchanged => ⟨hmore hchanged.1, hchanged.2⟩

theorem ChangesIn.trans (h : ChangesIn places disk middle)
    (h' : ChangesIn places middle after) :
    ChangesIn places disk after := by
  intro place
  rcases h' place with hsame' | ⟨hmem, hafter, hmiddle⟩
  · rw [hsame']
    exact h place
  · rcases h place with hsame | ⟨-, -, hdisk⟩
    · rw [hsame] at hmiddle
      exact Or.inr ⟨hmem, hafter, hmiddle⟩
    · exact Or.inr ⟨hmem, hafter, hdisk⟩

theorem Wrote.changesIn {place : List String} {bytes : ByteArray}
    (h : disk.Wrote after place bytes)
    (hold : disk.look place = none ∨ ∃ bytes, disk.look place = some (.file bytes)) :
    ChangesIn {place} disk after := by
  intro other
  rw [h.look]
  by_cases hother : other = place
  · subst hother
    rw [if_pos rfl]
    exact Or.inr ⟨rfl, ⟨bytes, rfl⟩, hold⟩
  · rw [if_neg hother]
    exact Or.inl rfl

theorem Wrote.createsNothing {place : List String} {old bytes : ByteArray}
    (h : disk.Wrote after place bytes) (hold : disk.look place = some (.file old)) :
    CreatesNothing disk after := by
  intro other hnone
  have hother : other ≠ place := by
    rintro rfl
    rw [hold] at hnone
    cases hnone
  rw [h.look, if_neg hother, hnone]

end Changes

end Disk

/-! ## Removals and reports -/

namespace Removal

open Literal

/-- The places of the files that reports name with at least one key. -/
def namedPlaces (disk : Disk) (root : Path) (reports : List Report) : Set (List String) :=
  {place | ∃ report ∈ reports, ∃ file keys, (file, keys) ∈ report ∧ keys ≠ [] ∧
    disk.place? (Path.absolutize root ⟨file⟩) = some place}

variable {disk disk' : Disk} {marker : List Char}

/-- A job that asks for no key leaves the disk as it is, and any other at most rewrites
the file that it names. -/
theorem Job.run_cases (hdisk : disk.Rooted) {job : Job} {summary : Summary}
    (h : (job.run marker disk).1 = .ok (disk', summary)) :
    disk' = disk ∨ job.keys ≠ [] ∧ ∃ place old new, disk.place? job.path = some place ∧
      disk.look place = some (.file old) ∧ disk.Wrote disk' place new := by
  by_cases hnames : ∃ place text, job.Names disk place text
  · obtain ⟨place, text, hnames⟩ := hnames
    by_cases hkeys : job.keys = []
    · have hread : disk.readText job.path = .ok text :=
        (Disk.readText_eq_ok_iff hdisk).mpr ⟨place, hnames.1, hnames.2⟩
      simp only [Job.run, hread, hkeys, cutAll, List.isEmpty_nil, if_true] at h
      exact Or.inl (Prod.mk.inj (Except.ok.inj h)).1.symm
    · obtain ⟨after, hrun, hwrote⟩ := Job.run_of_names hdisk marker hnames
      rw [hrun] at h
      obtain ⟨rfl, -⟩ := Prod.mk.inj (Except.ok.inj h)
      obtain ⟨old, hold⟩ : ∃ old, disk.look place = some (.file old) := by
        have htext := hnames.2
        unfold Disk.textAt? at htext
        split at htext
        · rename_i old hold
          exact ⟨old, hold⟩
        · cases htext
      exact Or.inr ⟨hkeys, place, old, _, hnames.1, hold, hwrote⟩
  · obtain ⟨fault, hrun⟩ := Job.run_of_not_names hdisk marker
      fun place text hjob => hnames ⟨place, text, hjob⟩
    rw [hrun] at h
    cases h

/-- A run of jobs, finished or not, rewrites files that jobs with keys name, and makes
none. -/
theorem runJobs_changesIn (hdisk : disk.Rooted) (marker : List Char) (jobs : List Job) :
    disk.ChangesIn {place | ∃ job ∈ jobs, job.keys ≠ [] ∧ disk.place? job.path = some place}
        (runJobs marker disk jobs).disk ∧
      disk.CreatesNothing (runJobs marker disk jobs).disk := by
  induction jobs generalizing disk with
  | nil => exact ⟨Disk.changesIn_refl _ disk, fun _ hnone => hnone⟩
  | cons job jobs ih =>
      cases hrun : (job.run marker disk).1 with
      | error e =>
          rw [(runJobs_cons_of_error hrun jobs).1]
          exact ⟨Disk.changesIn_refl _ disk, fun _ hnone => hnone⟩
      | ok done =>
          obtain ⟨disk', summary⟩ := done
          rw [(runJobs_cons_of_ok hrun jobs).1]
          rcases Job.run_cases hdisk hrun with
            rfl | ⟨hkeys, place, old, new, hplace, hold, hwrote⟩
          · obtain ⟨hchanges, hnothing⟩ := ih hdisk
            refine ⟨hchanges.mono ?_, hnothing⟩
            rintro q ⟨next, hnext, hq⟩
            exact ⟨next, List.mem_cons_of_mem job hnext, hq⟩
          · obtain ⟨hchanges, hnothing⟩ := ih hwrote.rooted
            constructor
            · have hfirst := hwrote.changesIn (Or.inr ⟨old, hold⟩)
              refine (hfirst.mono ?_).trans (hchanges.mono ?_)
              · rintro q rfl
                exact ⟨job, List.mem_cons_self, hkeys, hplace⟩
              · rintro q ⟨next, hnext, hnextKeys, hq⟩
                rw [hwrote.place?] at hq
                exact ⟨next, List.mem_cons_of_mem job hnext, hnextKeys, hq⟩
            · intro q hnone
              exact hnothing q (hwrote.createsNothing hold q hnone)

/-- A removal rewrites files that its reports name with at least one key, and makes none. -/
theorem apply_changesIn (hdisk : disk.Rooted) (root : Path) (marker : List Char)
    (reports : List Report) :
    disk.ChangesIn (namedPlaces disk root reports) (apply root marker disk reports).disk ∧
      disk.CreatesNothing (apply root marker disk reports).disk := by
  obtain ⟨hchanges, hnothing⟩ := runJobs_changesIn hdisk marker (jobs root reports)
  refine ⟨hchanges.mono ?_, hnothing⟩
  rintro place ⟨job, hjob, hkeys, hplace⟩
  simp only [jobs, List.mem_flatMap, List.mem_map] at hjob
  obtain ⟨report, hreport, ⟨file, keys⟩, hfile, rfl⟩ := hjob
  exact ⟨report, hreport, file, keys, hfile, hkeys, hplace⟩

end Removal

/-- Saving reports changes at most the file that the path leads to. -/
theorem Report.save_changesIn {disk saved : Disk} (hdisk : disk.Rooted) {path : Path}
    {reports : List Report} (h : save disk path reports = .ok saved) :
    disk.ChangesIn {place | disk.place? path = some place} saved := by
  unfold save at h
  split at h
  · cases h
  · rename_i after hwrite
    obtain rfl := Except.ok.inj h
    obtain ⟨place, hplace, hslot, rfl⟩ := Disk.slot_of_write hdisk hwrite
    refine ((Disk.wrote_put hdisk hslot _).changesIn hslot.free).mono ?_
    rintro other rfl
    exact hplace

namespace Program

variable {reader : Import.Reader}

/-! ## Runs in their modes -/

/-- The folders that are asked for have reports. -/
def Reported (reader : Import.Reader) (disk : Disk) (options : Options)
    (snapshot : Snapshot) (cwd : Path) (folders : List String)
    (founds : List FolderReport) : Prop :=
  List.Forall₂ (fun folder found => (Analysis.folderReport disk options snapshot
    (Path.absolutize cwd ⟨folder⟩) reader).1 = .ok found) folders founds

section Modes

variable {disk : Disk} {settings : Settings}

theorem reported_of_study {options : Options} {snapshot : Snapshot} {cwd : Path}
    {style : Display.Style} {folders : List String} {founds : List FolderReport}
    (h : (study disk options style cwd snapshot folders reader).result = .ok founds) :
    Reported reader disk options snapshot cwd folders founds := by
  induction folders generalizing founds with
  | nil =>
      cases h
      exact .nil
  | cons folder folders ih =>
      rw [study_cons] at h
      split at h
      · cases h
      · rename_i found events hfound
        cases hrest : (study disk options style cwd snapshot folders reader).result with
        | error e =>
            simp only [hrest] at h
            cases h
        | ok rest =>
            simp only [hrest] at h
            obtain rfl := Except.ok.inj h
            exact .cons (by rw [hfound]) (ih hrest)

/-- What a run on folders leaves of the disk: what it was, unless there is a snapshot and
a report for every folder, and these have been removed or saved. -/
theorem runFolders_cases (disk : Disk) (settings : Settings) (style : Display.Style)
    (cwd : Path) (remove : Bool) (folders : List String) :
    (runFolders disk settings style cwd remove folders reader).disk = disk ∨
      ∃ snapshot founds, (Snapshot.take disk settings.options reader).1 = .ok snapshot ∧
        Reported reader disk settings.options snapshot cwd folders founds ∧
        (runFolders disk settings style cwd remove folders reader).disk =
          (if remove then removeAll disk settings style (founds.map FolderReport.report)
            else saveAll disk settings style (founds.map FolderReport.report)).disk := by
  unfold runFolders
  split
  · exact Or.inl rfl
  · rename_i snapshot events htake
    dsimp only
    split
    · exact Or.inl rfl
    · rename_i founds hfounds
      refine Or.inr ⟨snapshot, founds, by rw [htake], reported_of_study hfounds, ?_⟩
      cases remove <;> simp [Course.behind, Course.closedBy] <;> split <;> rfl

theorem removeAll_changesIn (hdisk : disk.Rooted) (style : Display.Style)
    (reports : List Report) :
    disk.ChangesIn (Removal.namedPlaces disk settings.options.root reports)
        (removeAll disk settings style reports).disk ∧
      disk.CreatesNothing (removeAll disk settings style reports).disk := by
  have hdone : (removeAll disk settings style reports).disk =
      (Removal.apply settings.options.root settings.options.marker.toList disk
        reports).disk := by
    unfold removeAll
    dsimp only
    split <;> rfl
  rw [hdone]
  exact Removal.apply_changesIn hdisk _ _ reports

theorem saveAll_changesIn (hdisk : disk.Rooted) (style : Display.Style)
    (reports : List Report) :
    disk.ChangesIn {place | disk.place? settings.output = some place}
      (saveAll disk settings style reports).disk := by
  unfold saveAll
  split
  · exact Disk.changesIn_refl _ disk
  · rename_i saved hsaved
    exact Report.save_changesIn hdisk hsaved

end Modes

/-! ## Whole runs -/

/-- The words of a request are understood, and there are settings. -/
structure Ready (disk : Disk) (request : Request) (invocation : CommandLine.Invocation)
    (settings : Settings) : Prop where
  parsed : CommandLine.parse request.words = .ok invocation
  loaded : Settings.load disk request.cwd invocation.overrides = .ok settings

/-- A run stops before it writes: on its words, on its settings, on the report that it is to
remove by, on the snapshot, or on any one of its folders. -/
inductive FailsEarly (reader : Import.Reader) (disk : Disk) (request : Request) : Prop
  | words {e : CommandLine.UsageError} (h : CommandLine.parse request.words = .error e) :
      FailsEarly reader disk request
  | settings {invocation : CommandLine.Invocation} {fault : Settings.Fault}
      (hparse : CommandLine.parse request.words = .ok invocation)
      (h : Settings.load disk request.cwd invocation.overrides = .error fault) :
      FailsEarly reader disk request
  | report {invocation : CommandLine.Invocation} {settings : Settings} {path : String}
      {e : ScanError} (hready : Ready disk request invocation settings)
      (hpath : invocation.removeJson = some path)
      (h : Report.load disk (Path.absolutize request.cwd ⟨path⟩) = .error e) :
      FailsEarly reader disk request
  | snapshot {invocation : CommandLine.Invocation} {settings : Settings} {e : ScanError}
      (hready : Ready disk request invocation settings)
      (hpath : invocation.removeJson = none)
      (h : (Snapshot.take disk settings.options reader).1 = .error e) :
      FailsEarly reader disk request
  | folder {invocation : CommandLine.Invocation} {settings : Settings} {snapshot : Snapshot}
      {folder : String} {e : ScanError} (hready : Ready disk request invocation settings)
      (hpath : invocation.removeJson = none)
      (htake : (Snapshot.take disk settings.options reader).1 = .ok snapshot)
      (hmem : folder ∈ invocation.folders)
      (h : (Analysis.folderReport disk settings.options snapshot
        (Path.absolutize request.cwd ⟨folder⟩) reader).1 = .error e) :
      FailsEarly reader disk request

/-- The reports that a removal goes by: those of a saved file, or those of the folders. -/
inductive Applies (reader : Import.Reader) (disk : Disk) (request : Request)
    (invocation : CommandLine.Invocation) (settings : Settings) : List Report → Prop
  | saved {path : String} {reports : List Report}
      (hpath : invocation.removeJson = some path)
      (hload : Report.load disk (Path.absolutize request.cwd ⟨path⟩) = .ok reports) :
      Applies reader disk request invocation settings reports
  | found {snapshot : Snapshot} {founds : List FolderReport}
      (hpath : invocation.removeJson = none) (hremove : invocation.remove = true)
      (htake : (Snapshot.take disk settings.options reader).1 = .ok snapshot)
      (hfounds : Reported reader disk settings.options snapshot request.cwd
        invocation.folders founds) :
      Applies reader disk request invocation settings (founds.map FolderReport.report)

section Runs

variable {disk : Disk} {request : Request} {invocation : CommandLine.Invocation}
  {settings : Settings}

/-- What a run with settings leaves of the disk: what it was, or what a removal or a
saved report makes of it. -/
theorem Ready.run_cases (h : Ready disk request invocation settings) :
    (run disk request reader).disk = disk ∨
      (∃ reports, Applies reader disk request invocation settings reports ∧
        (run disk request reader).disk =
          (removeAll disk settings (request.style settings) reports).disk) ∨
      invocation.removeJson = none ∧ invocation.remove = false ∧
        ∃ snapshot founds, (Snapshot.take disk settings.options reader).1 = .ok snapshot ∧
          Reported reader disk settings.options snapshot request.cwd
            invocation.folders founds ∧
          (run disk request reader).disk = (saveAll disk settings (request.style settings)
            (founds.map FolderReport.report)).disk := by
  by_cases hschema : CommandLine.asksForSchema request.words = true
  · refine Or.inl ?_
    simp only [run, hschema, if_true]
  · obtain ⟨-, -, hdisk⟩ := run_of_parse (Bool.eq_false_iff.mpr hschema) h.parsed disk
    rw [hdisk]
    unfold carryOut
    simp only [h.loaded]
    split
    · rename_i path _ hpath
      unfold runReport
      split
      · exact Or.inl rfl
      · rename_i reports hreports
        exact Or.inr (Or.inl ⟨reports, .saved hpath hreports, rfl⟩)
    · exact Or.inl rfl
    · rename_i hpath _
      rcases runFolders_cases disk settings (request.style settings) request.cwd
        invocation.remove invocation.folders with
          hsame | ⟨snapshot, founds, htake, hfounds, hleft⟩
      · exact Or.inl hsame
      · cases hremove : invocation.remove with
        | true =>
            rw [hremove, if_pos rfl] at hleft
            exact Or.inr (Or.inl ⟨_, .found hpath hremove htake hfounds, hleft⟩)
        | false =>
            rw [hremove, if_neg Bool.false_ne_true] at hleft
            exact Or.inr (Or.inr ⟨hpath, rfl, snapshot, founds, htake, hfounds, hleft⟩)

theorem Reported.exists_of_mem {options : Options} {snapshot : Snapshot} {cwd : Path}
    {folders : List String} {founds : List FolderReport}
    (h : Reported reader disk options snapshot cwd folders founds) {folder : String}
    (hmem : folder ∈ folders) :
    ∃ found,
      (Analysis.folderReport disk options snapshot
        (Path.absolutize cwd ⟨folder⟩) reader).1 =
      .ok found := by
  induction h with
  | nil => cases hmem
  | cons hfound _ ih =>
      rcases List.mem_cons.mp hmem with rfl | hrest
      · exact ⟨_, hfound⟩
      · exact ih hrest

/-- A run that cannot have all its reports leaves the disk as it was. -/
theorem Ready.disk_run_of_not_reported (h : Ready disk request invocation settings)
    (hpath : invocation.removeJson = none)
    (hnot : ∀ snapshot founds,
      (Snapshot.take disk settings.options reader).1 = .ok snapshot →
      ¬Reported reader disk settings.options snapshot request.cwd
        invocation.folders founds) :
    (run disk request reader).disk = disk := by
  rcases h.run_cases with
    hsame | ⟨reports, hreports, -⟩ | ⟨-, -, snapshot, founds, htake, hfounds, -⟩
  · exact hsame
  · cases hreports with
    | saved hsome _ =>
        rw [hpath] at hsome
        cases hsome
    | found _ _ htake hfounds => exact (hnot _ _ htake hfounds).elim
  · exact (hnot _ _ htake hfounds).elim

theorem FailsEarly.disk_run (h : FailsEarly reader disk request) :
    (run disk request reader).disk = disk := by
  cases h with
  | words h =>
      unfold run
      split
      · rfl
      · rw [h]
        split <;> first | rfl | rename_i hok; cases hok
  | settings hparse h =>
      by_cases hschema : CommandLine.asksForSchema request.words = true
      · simp only [run, hschema, if_true]
      · obtain ⟨-, -, hdisk⟩ := run_of_parse (Bool.eq_false_iff.mpr hschema) hparse disk
        rw [hdisk, carryOut, h]
        rfl
  | report hready hpath h =>
      rcases hready.run_cases with hsame | ⟨reports, hreports, -⟩ | ⟨hnone, -⟩
      · exact hsame
      · cases hreports with
        | saved hsome hload =>
            obtain rfl := Option.some.inj (hpath.symm.trans hsome)
            rw [h] at hload
            cases hload
        | found hnone _ _ _ =>
            rw [hpath] at hnone
            cases hnone
      · rw [hpath] at hnone
        cases hnone
  | snapshot hready hpath h =>
      refine hready.disk_run_of_not_reported hpath ?_
      intro snapshot founds htake
      rw [h] at htake
      cases htake
  | folder hready hpath htake hmem h =>
      refine hready.disk_run_of_not_reported hpath ?_
      intro snapshot founds htake' hfounds
      obtain rfl := Except.ok.inj (htake.symm.trans htake')
      obtain ⟨found, hfound⟩ := hfounds.exists_of_mem hmem
      rw [h] at hfound
      cases hfound

end Runs

/-- A run changes only what it may.  One that fails before it writes leaves the disk as
it was.  One that reports changes at most the report file.  One that removes changes at
most the files that the reports it goes by name with a key, and makes no file. -/
theorem run_changes_only {disk : Disk} (hdisk : disk.Rooted) (request : Request) :
    (FailsEarly reader disk request → (run disk request reader).disk = disk) ∧
      ∀ invocation settings, Ready disk request invocation settings →
        (invocation.removeJson = none → invocation.remove = false →
          disk.ChangesIn {place | disk.place? settings.output = some place}
            (run disk request reader).disk) ∧
        (invocation.removeJson ≠ none ∨ invocation.remove = true →
          disk.CreatesNothing (run disk request reader).disk ∧
            ((run disk request reader).disk = disk ∨
              ∃ reports, Applies reader disk request invocation settings reports ∧
                disk.ChangesIn (Removal.namedPlaces disk settings.options.root reports)
                  (run disk request reader).disk)) := by
  refine ⟨FailsEarly.disk_run, ?_⟩
  intro invocation settings hready
  constructor
  · intro hpath hkeep
    rcases hready.run_cases with
      hsame | ⟨reports, hreports, -⟩ | ⟨-, -, snapshot, founds, -, -, hleft⟩
    · rw [hsame]
      exact Disk.changesIn_refl _ disk
    · cases hreports with
      | saved hsome _ =>
          rw [hpath] at hsome
          cases hsome
      | found _ hremove _ _ =>
          rw [hkeep] at hremove
          cases hremove
    · rw [hleft]
      exact saveAll_changesIn hdisk _ _
  · intro hremoves
    rcases hready.run_cases with hsame | ⟨reports, hreports, hleft⟩ | ⟨hnone, hkeep, -⟩
    · rw [hsame]
      exact ⟨fun _ hnone => hnone, Or.inl rfl⟩
    · rw [hleft]
      obtain ⟨hchanges, hnothing⟩ :=
        removeAll_changesIn hdisk (request.style settings) reports
      exact ⟨hnothing, Or.inr ⟨reports, hreports, hchanges⟩⟩
    · rcases hremoves with hsome | hremove
      · exact (hsome hnone).elim
      · rw [hkeep] at hremove
        cases hremove

/-- A project without a settings file: a folder that is not there, a report, a removal. -/
theorem run_changes_only_one :
    let text := "StyleSheet.create({ a: {} })".toList
    let disk : Disk := ⟨.folder [("a.ts", .file (Text.encode text))]⟩
    let request (words : List String) : Request := ⟨words, [], ⟨"/"⟩, false⟩
    disk.Rooted ∧ (run disk (request ["--remove", ".", "b"])).disk = disk ∧
      (run disk (request ["."])).disk.look ["a.ts"] = disk.look ["a.ts"] ∧
      (run disk (request ["--remove", "."])).disk.look ["unused-styles.json"] = none := by
  have hmissing : ∀ bytes, Disk.node ⟨.folder [("a.ts", .file bytes)]⟩ ⟨"/b"⟩ =
      .error .noEntry :=
    Disk.node_one_file_of_ne (by decide +kernel : Disk.IsAtRoot ⟨"/b"⟩ "b") (by decide)
  have hremoving : CommandLine.parse ["--remove", "."] =
      .ok { folders := ["."], remove := true } := rfl
  have hstopping : CommandLine.parse ["--remove", ".", "b"] =
      .ok { folders := [".", "b"], remove := true } := rfl
  have hreporting : CommandLine.parse ["."] = .ok { folders := ["."] } := rfl
  intro text disk request
  have hload : Settings.load disk ⟨"/"⟩ {} = .ok rootSettings := load_one_file (by decide) _
  have hdisk : disk.Rooted := rfl
  refine ⟨hdisk, ?_, ?_, ?_⟩
  · have hfolder : Path.absolutize ⟨"/"⟩ ⟨"/"⟩ = ⟨"/"⟩ := by decide +kernel
    have hb : Path.absolutize ⟨"/"⟩ (Path.absolutize ⟨"/"⟩ ⟨"b"⟩) = ⟨"/b"⟩ := by
      decide +kernel
    obtain ⟨htake, -⟩ := Analysis.exists_scan_root_file Import.read
      (show rootSettings.options.root = ⟨"/"⟩ from rfl) hfolder "a.ts" (by decide +kernel)
      (by decide +kernel) (Text.encode text)
    have hstop : ∀ snapshot, (Analysis.folderReport disk rootSettings.options snapshot
        (Path.absolutize ⟨"/"⟩ ⟨"b"⟩)).1 = .error (.read ⟨"/b"⟩ .noEntry) := by
      intro snapshot
      simp only [Analysis.folderReport, rootSettings, hb, disk, hmissing]
    refine (run_changes_only hdisk (request ["--remove", ".", "b"])).1 ?_
    exact .folder ⟨hstopping, hload⟩ rfl htake
      (List.mem_cons_of_mem _ List.mem_cons_self) (hstop _)
  · obtain ⟨hreports, -⟩ :=
      (run_changes_only hdisk (request ["."])).2 _ rootSettings ⟨hreporting, hload⟩
    rcases hreports rfl rfl ["a.ts"] with hsame | ⟨hmem, -⟩
    · exact hsame
    · rw [Set.mem_ofPred_eq, place?_output_one_file] at hmem
      exact absurd hmem (by decide)
  · obtain ⟨-, hremoves⟩ :=
      (run_changes_only hdisk (request ["--remove", "."])).2 _ rootSettings
        ⟨hremoving, hload⟩
    exact (hremoves (Or.inr rfl)).1 ["unused-styles.json"] rfl

end Program

end StylePrune
