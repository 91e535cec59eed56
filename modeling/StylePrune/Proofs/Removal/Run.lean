import Mathlib.Algebra.BigOperators.Group.Finset.Piecewise
import Mathlib.Algebra.GroupWithZero.Nat
import Mathlib.Data.List.Infix
import StylePrune.Proofs.Disk.Sight
import StylePrune.Removal

/-!
# Runs of removal jobs

A run does one job after another.  What a finished run leaves at a place is what
one cut leaves that takes the keys of all jobs whose paths lead there, in their
order, however the paths are spelled.  A run that fails has done the jobs in
front of the failing one and nothing else.
-/

namespace StylePrune

namespace Literal

/-- Cutting two lists of keys is cutting the second from what the first leaves. -/
theorem cutAll_append (marker text : List Char) (keys more : List String) :
    let first := cutAll marker text keys
    let second := cutAll marker first.text more
    cutAll marker text (keys ++ more) =
      ⟨second.text, first.removed ++ second.removed, first.missed ++ second.missed⟩ := by
  induction keys generalizing text with
  | nil => rfl
  | cons key keys ih =>
      cases hcut : cut? marker text key with
      | none => simp only [List.cons_append, cutAll, hcut, ih]
      | some shorter => simp only [List.cons_append, cutAll, hcut, ih]

theorem length_cutAll (marker text : List Char) (keys : List String) :
    (cutAll marker text keys).removed.length + (cutAll marker text keys).missed.length =
      keys.length := by
  induction keys generalizing text with
  | nil => rfl
  | cons key keys ih =>
      cases hcut : cut? marker text key with
      | none =>
          have hrest := ih text
          simp only [cutAll, hcut, List.length_cons]
          omega
      | some shorter =>
          have hrest := ih shorter
          simp only [cutAll, hcut, List.length_cons]
          omega

/-- Where nothing is cut, the text stays. -/
theorem text_cutAll_of_removed {marker text : List Char} {keys : List String}
    (h : (cutAll marker text keys).removed = []) :
    (cutAll marker text keys).text = text := by
  induction keys generalizing text with
  | nil => rfl
  | cons key keys ih =>
      cases hcut : cut? marker text key with
      | none =>
          simp only [cutAll, hcut] at h ⊢
          exact ih h
      | some shorter => simp [cutAll, hcut] at h

end Literal

namespace Removal

open Literal

/-! ## One job -/

/-- A job names a file if its path leads to one that holds a text. -/
def Job.Names (job : Job) (disk : Disk) (place : List String) (text : List Char) : Prop :=
  disk.place? job.path = some place ∧ disk.textAt? place = some text

theorem wrote_self {disk : Disk} (hdisk : disk.Rooted) {place : List String}
    {text : List Char} (h : disk.textAt? place = some text) :
    disk.Wrote disk place (Text.encode text) := by
  refine ⟨hdisk, ?_, fun _ => rfl⟩
  intro other
  split
  · rename_i hother
    subst hother
    unfold Disk.textAt? at h
    split at h
    · rename_i bytes hlook
      rw [hlook, Text.encode_of_decode? h]
    · cases h
  · rfl

theorem textAt?_of_wrote {disk disk' : Disk} {place : List String} {text : List Char}
    (h : disk.Wrote disk' place (Text.encode text)) (other : List String) :
    disk'.textAt? other = if other = place then some text else disk.textAt? other := by
  rw [Disk.textAt?, h.look]
  by_cases hother : other = place
  · simp only [if_pos hother, Text.decode?_encode]
  · simp only [if_neg hother, Disk.textAt?]

/-- A job names the text that the bytes at its path are. -/
theorem Job.exists_names_of_read {disk : Disk} (hdisk : disk.Rooted) {job : Job}
    {bytes : ByteArray} (h : disk.read job.path = .ok bytes) (text : List Char) :
    (∃ place, job.Names disk place text) ↔ Text.decode? bytes = some text := by
  refine (Disk.readText_eq_ok_iff hdisk).symm.trans ?_
  rw [Disk.readText, h]
  cases hdecode : Text.decode? bytes <;> simp [hdecode]

/-- A job whose path names a text leaves there what a cut leaves. -/
theorem Job.run_of_names {disk : Disk} (hdisk : disk.Rooted) (marker : List Char)
    {job : Job} {place : List String} {text : List Char} (h : job.Names disk place text) :
    ∃ disk', (job.run marker disk).1 =
        .ok (disk', summaryOf job (cutAll marker text job.keys)) ∧
      disk.Wrote disk' place (Text.encode (cutAll marker text job.keys).text) := by
  have hread : disk.readText job.path = .ok text :=
    (Disk.readText_eq_ok_iff hdisk).mpr ⟨place, h.1, h.2⟩
  by_cases hremoved : (cutAll marker text job.keys).removed = []
  · refine ⟨disk, ?_, ?_⟩
    · simp [Job.run, hread, hremoved]
    · rw [text_cutAll_of_removed hremoved]
      exact wrote_self hdisk h.2
  · obtain ⟨old, hold⟩ : ∃ old, disk.read job.path = .ok old := by
      unfold Disk.readText at hread
      split at hread
      · cases hread
      · rename_i old hold
        exact ⟨old, hold⟩
    obtain ⟨disk', hwrite⟩ :=
      Disk.exists_write_of_read hdisk hold (Text.encode (cutAll marker text job.keys).text)
    refine ⟨disk', ?_, ?_⟩
    · simp [Job.run, hread, hremoved, hwrite]
    · obtain ⟨place', hplace', hwrote⟩ := Disk.wrote_of_write hdisk hwrite
      rw [h.1] at hplace'
      exact Option.some.inj hplace' ▸ hwrote

/-- A job whose path names no text fails to read. -/
theorem Job.run_of_not_names {disk : Disk} (hdisk : disk.Rooted) (marker : List Char)
    {job : Job} (h : ∀ place text, ¬job.Names disk place text) :
    ∃ fault, (job.run marker disk).1 = .error (.read job.path fault) := by
  cases hread : disk.readText job.path with
  | error fault => exact ⟨fault, by simp [Job.run, hread]⟩
  | ok text =>
      obtain ⟨place, hnames⟩ := (Disk.readText_eq_ok_iff hdisk).mp hread
      exact (h place text hnames).elim

/-- Jobs name the same places after a file has been written. -/
theorem Job.exists_names_iff {disk disk' : Disk} {place : List String} {old new : List Char}
    (hold : disk.textAt? place = some old)
    (hwrote : disk.Wrote disk' place (Text.encode new)) (job : Job) :
    (∃ q text, job.Names disk' q text) ↔ ∃ q text, job.Names disk q text := by
  simp only [Job.Names, hwrote.place?, textAt?_of_wrote hwrote]
  constructor
  · rintro ⟨q, text, hq, htext⟩
    by_cases hplace : q = place
    · exact ⟨q, old, hq, hplace ▸ hold⟩
    · exact ⟨q, text, hq, by rwa [if_neg hplace] at htext⟩
  · rintro ⟨q, text, hq, htext⟩
    by_cases hplace : q = place
    · exact ⟨q, new, hq, if_pos hplace⟩
    · exact ⟨q, text, hq, by rwa [if_neg hplace]⟩

/-! ## What a run amounts to -/

/-- The keys to cut at a place, in the order of the jobs whose paths lead there. -/
def keysAt (disk : Disk) (jobs : List Job) (place : List String) : List String :=
  jobs.flatMap fun job => if disk.place? job.path = some place then job.keys else []

/-- The places that the paths of jobs lead to. -/
def placesOf (disk : Disk) (jobs : List Job) : Finset (List String) :=
  (jobs.filterMap fun job => disk.place? job.path).toFinset

/-- The cut that takes all keys of jobs at a place together. -/
def cutAt (marker : List Char) (disk : Disk) (jobs : List Job) (place : List String) :
    Cut :=
  cutAll marker ((disk.textAt? place).getD []) (keysAt disk jobs place)

/-- What a job cuts behind earlier jobs. -/
def cutOf (marker : List Char) (disk : Disk) (earlier : List Job) (job : Job) : Cut :=
  cutAll marker (cutAt marker disk earlier ((disk.place? job.path).getD [])).text job.keys

/-- What a finished run of jobs has done, said by what is seen of the disk before. -/
structure Applied (marker : List Char) (disk after : Disk) (jobs : List Job)
    (summary : Summary) : Prop where
  rooted : after.Rooted
  place? : ∀ path, after.place? path = disk.place? path
  /-- Every path leads to a text. -/
  named : ∀ job ∈ jobs, ∃ place text, job.Names disk place text
  /-- What no path leads to is as it was. -/
  kept : ∀ place ∉ placesOf disk jobs, after.look place = disk.look place
  /-- Where paths lead to, all their keys are cut together. -/
  stripped : ∀ place ∈ placesOf disk jobs,
    after.look place = some (.file (Text.encode (cutAt marker disk jobs place).text))
  planned : summary.planned = (jobs.map fun job => job.keys.length).sum
  accounted : summary.removed + summary.missed = summary.planned
  removed : summary.removed =
    ∑ place ∈ placesOf disk jobs, (cutAt marker disk jobs place).removed.length
  written : summary.written =
    (jobs.inits.zip jobs).countP fun (earlier, job) =>
      (cutOf marker disk earlier job).removed ≠ []

theorem mem_placesOf {disk : Disk} {jobs : List Job} {place : List String} :
    place ∈ placesOf disk jobs ↔ ∃ job ∈ jobs, disk.place? job.path = some place := by
  simp [placesOf]

theorem keysAt_eq_nil {disk : Disk} {jobs : List Job} {place : List String}
    (h : place ∉ placesOf disk jobs) : keysAt disk jobs place = [] := by
  rw [keysAt, List.flatMap_eq_nil_iff]
  intro job hjob
  exact if_neg fun hplace => h (mem_placesOf.mpr ⟨job, hjob, hplace⟩)

section Step

variable {marker : List Char} {disk disk' : Disk} {job : Job} {place : List String}
  {text : List Char}

theorem placesOf_cons (h : job.Names disk place text)
    (hplaces : ∀ path, disk'.place? path = disk.place? path) (jobs : List Job) :
    placesOf disk (job :: jobs) = insert place (placesOf disk' jobs) := by
  simp [placesOf, h.1, hplaces]

/-- The cut of a job and those behind it is the job's own cut and the others' cut after
it. -/
theorem cutAt_cons (h : job.Names disk place text)
    (hwrote : disk.Wrote disk' place (Text.encode (cutAll marker text job.keys).text))
    (jobs : List Job) (q : List String) :
    (cutAt marker disk (job :: jobs) q).text = (cutAt marker disk' jobs q).text ∧
      (cutAt marker disk (job :: jobs) q).removed.length =
        (if q = place then (cutAll marker text job.keys).removed.length else 0) +
          (cutAt marker disk' jobs q).removed.length := by
  have hkeys : keysAt disk (job :: jobs) q =
      (if q = place then job.keys else []) ++ keysAt disk' jobs q := by
    simp only [keysAt, List.flatMap_cons, h.1, hwrote.place?, Option.some.injEq, eq_comm]
  rw [cutAt, cutAt, hkeys, textAt?_of_wrote hwrote]
  by_cases hq : q = place
  · subst hq
    simp only [if_pos, h.2, Option.getD_some, cutAll_append, List.length_append, and_self]
  · simp only [if_neg hq, List.nil_append, Nat.zero_add, and_self]

theorem cutOf_cons (h : job.Names disk place text)
    (hwrote : disk.Wrote disk' place (Text.encode (cutAll marker text job.keys).text))
    (earlier : List Job) (next : Job) :
    cutOf marker disk (job :: earlier) next = cutOf marker disk' earlier next := by
  rw [cutOf, cutOf, (cutAt_cons h hwrote earlier _).1, hwrote.place?]

theorem cutOf_nil (h : job.Names disk place text) :
    cutOf marker disk [] job = cutAll marker text job.keys := by
  simp [cutOf, cutAt, keysAt, cutAll, h.1, h.2]

/-- A job in front of a finished run. -/
theorem Applied.cons {after : Disk} {jobs : List Job} {summary : Summary}
    (h : job.Names disk place text)
    (hwrote : disk.Wrote disk' place (Text.encode (cutAll marker text job.keys).text))
    (hrest : Applied marker disk' after jobs summary) :
    Applied marker disk after (job :: jobs)
      ((summaryOf job (cutAll marker text job.keys)).add summary) := by
  have hplaces := placesOf_cons h hwrote.place? jobs
  have hcut := cutAt_cons h hwrote jobs
  refine ⟨hrest.rooted, ?_, ?_, ?_, ?_, ?_, ?_, ?_, ?_⟩
  · intro path
    rw [hrest.place?, hwrote.place?]
  · intro next hnext
    rcases List.mem_cons.mp hnext with rfl | hnext
    · exact ⟨place, text, h⟩
    · exact (Job.exists_names_iff h.2 hwrote next).mp (hrest.named next hnext)
  · intro q hq
    rw [hplaces, Finset.mem_insert, not_or] at hq
    rw [hrest.kept q hq.2, hwrote.look, if_neg hq.1]
  · intro q hq
    rw [(hcut q).1]
    by_cases hmem : q ∈ placesOf disk' jobs
    · exact hrest.stripped q hmem
    · rw [hplaces, Finset.mem_insert] at hq
      have hq := hq.resolve_right hmem
      rw [hrest.kept q hmem, hwrote.look, if_pos hq, cutAt, keysAt_eq_nil hmem,
        textAt?_of_wrote hwrote, if_pos hq]
      rfl
  · simp [Summary.add, summaryOf, hrest.planned]
  · have hown := length_cutAll marker text job.keys
    have hothers := hrest.accounted
    simp only [Summary.add, summaryOf]
    omega
  · -- a place that no later path leads to adds nothing to the later sum
    have hsum : ∑ q ∈ insert place (placesOf disk' jobs),
        (cutAt marker disk' jobs q).removed.length =
          ∑ q ∈ placesOf disk' jobs, (cutAt marker disk' jobs q).removed.length := by
      refine Finset.sum_insert_of_eq_zero_if_notMem fun hmem => ?_
      rw [cutAt, keysAt_eq_nil hmem]
      rfl
    simp only [Summary.add, summaryOf, hrest.removed, hplaces, hcut, Finset.sum_add_distrib,
      Finset.sum_ite_eq', Finset.mem_insert_self, if_true, hsum]
  · have hzip : ((job :: jobs).inits.zip (job :: jobs)) =
        ([], job) :: (jobs.inits.zip jobs).map fun (earlier, next) =>
          (job :: earlier, next) := by
      rw [List.inits_cons, List.zip_cons_cons, List.zip_map_left]
      rfl
    rw [hzip, List.countP_cons, List.countP_map]
    simp only [Summary.add, summaryOf, hrest.written, cutOf_nil h, Function.comp_def,
      cutOf_cons h hwrote]
    by_cases hremoved : (cutAll marker text job.keys).removed = []
    · simp [hremoved]
    · simp [hremoved, Nat.add_comm]

end Step

/-! ## Whole runs -/

theorem applied_nil {disk : Disk} (hdisk : disk.Rooted) (marker : List Char) :
    Applied marker disk disk [] {} := by
  refine ⟨hdisk, fun _ => rfl, ?_, fun _ _ => rfl, ?_, rfl, rfl, rfl, rfl⟩
  · intro job hjob
    cases hjob
  · intro place hplace
    simp [placesOf] at hplace

theorem runJobs_cons_of_ok {marker : List Char} {disk disk' : Disk} {job : Job}
    {summary : Summary} (h : (job.run marker disk).1 = .ok (disk', summary))
    (jobs : List Job) :
    (runJobs marker disk (job :: jobs)).disk = (runJobs marker disk' jobs).disk ∧
      (runJobs marker disk (job :: jobs)).result =
        (runJobs marker disk' jobs).result.map summary.add := by
  rw [runJobs]
  split
  · rename_i e events hrun
    simp [hrun] at h
  · rename_i after own events hrun
    simp only [hrun, Except.ok.injEq, Prod.mk.injEq] at h
    obtain ⟨rfl, rfl⟩ := h
    exact ⟨rfl, rfl⟩

theorem runJobs_cons_of_error {marker : List Char} {disk : Disk} {job : Job} {e : ScanError}
    (h : (job.run marker disk).1 = .error e) (jobs : List Job) :
    (runJobs marker disk (job :: jobs)).disk = disk ∧
      (runJobs marker disk (job :: jobs)).result = .error e := by
  rw [runJobs]
  split
  · rename_i e' events hrun
    rw [hrun] at h
    exact ⟨rfl, congrArg Except.error (Except.error.inj h)⟩
  · rename_i after own events hrun
    simp [hrun] at h

/-- A run of one job whose path names a text. -/
theorem runJobs_singleton_of_names {disk : Disk} (hdisk : disk.Rooted) (marker : List Char)
    {job : Job} {place : List String} {text : List Char} (h : job.Names disk place text) :
    let cut := cutAll marker text job.keys
    (runJobs marker disk [job]).result = .ok (summaryOf job cut) ∧
      (runJobs marker disk [job]).disk.look place =
        some (.file (Text.encode cut.text)) := by
  intro cut
  obtain ⟨disk', hrun, hwrote⟩ := Job.run_of_names hdisk marker h
  obtain ⟨hleft, hresult⟩ := runJobs_cons_of_ok hrun []
  rw [hleft, hresult]
  refine ⟨rfl, ?_⟩
  rw [runJobs, hwrote.look, if_pos rfl]

/-- What a run that finishes has done. -/
theorem applied_of_runJobs {disk : Disk} (hdisk : disk.Rooted) {marker : List Char}
    {jobs : List Job} {summary : Summary}
    (h : (runJobs marker disk jobs).result = .ok summary) :
    Applied marker disk (runJobs marker disk jobs).disk jobs summary := by
  induction jobs generalizing disk summary with
  | nil =>
      cases h
      exact applied_nil hdisk marker
  | cons job jobs ih =>
      by_cases hnames : ∃ place text, job.Names disk place text
      · obtain ⟨place, text, hnames⟩ := hnames
        obtain ⟨disk', hrun, hwrote⟩ := Job.run_of_names hdisk marker hnames
        obtain ⟨hdisk', hresult⟩ := runJobs_cons_of_ok hrun jobs
        rw [hresult] at h
        cases hothers : (runJobs marker disk' jobs).result with
        | error e => simp [hothers, Except.map] at h
        | ok others =>
            rw [hothers] at h
            obtain rfl := Except.ok.inj h
            rw [hdisk']
            exact (ih hwrote.rooted hothers).cons hnames hwrote
      · obtain ⟨fault, hrun⟩ := Job.run_of_not_names hdisk marker
          fun place text h => hnames ⟨place, text, h⟩
        rw [(runJobs_cons_of_error hrun jobs).2] at h
        cases h

/-- A run that fails has done the jobs in front of one whose path leads to no text. -/
theorem runJobs_of_error {disk : Disk} (hdisk : disk.Rooted) {marker : List Char}
    {jobs : List Job} {e : ScanError} (h : (runJobs marker disk jobs).result = .error e) :
    ∃ done job rest summary fault, jobs = done ++ job :: rest ∧
      (∀ place text, ¬job.Names disk place text) ∧ e = .read job.path fault ∧
      (runJobs marker disk done).result = .ok summary ∧
      (runJobs marker disk done).disk = (runJobs marker disk jobs).disk ∧
      (job.run marker (runJobs marker disk jobs).disk).1 = .error e := by
  induction jobs generalizing disk with
  | nil => cases h
  | cons job jobs ih =>
      by_cases hnames : ∃ place text, job.Names disk place text
      · obtain ⟨place, text, hnames⟩ := hnames
        obtain ⟨disk', hrun, hwrote⟩ := Job.run_of_names hdisk marker hnames
        obtain ⟨hdisk', hresult⟩ := runJobs_cons_of_ok hrun jobs
        rw [hresult] at h
        have hrest : (runJobs marker disk' jobs).result = .error e := by
          cases hothers : (runJobs marker disk' jobs).result with
          | error e' => simpa [hothers, Except.map] using h
          | ok summary => simp [hothers, Except.map] at h
        obtain ⟨done, next, rest, summary, fault, rfl, hnext, he, hdone, hsame, hfail⟩ :=
          ih hwrote.rooted hrest
        obtain ⟨hdisk'', hresult'⟩ := runJobs_cons_of_ok hrun done
        rw [hdone] at hresult'
        refine ⟨job :: done, next, rest, _, fault, rfl, ?_, he, hresult', ?_, ?_⟩
        · intro q other hq
          obtain ⟨q', other', hq'⟩ :=
            (Job.exists_names_iff hnames.2 hwrote next).mpr ⟨q, other, hq⟩
          exact hnext q' other' hq'
        · rw [hdisk'', hdisk', hsame]
        · rw [hdisk']
          exact hfail
      · have hnone : ∀ place text, ¬job.Names disk place text :=
          fun place text h => hnames ⟨place, text, h⟩
        obtain ⟨fault, hrun⟩ := Job.run_of_not_names hdisk marker hnone
        obtain ⟨hdisk', hresult⟩ := runJobs_cons_of_error hrun jobs
        rw [hresult] at h
        obtain rfl := Except.error.inj h
        exact ⟨[], job, jobs, {}, fault, rfl, hnone, rfl, rfl,
          hdisk'.symm, by rw [hdisk', hrun]⟩

/-- A run finishes if and only if every path leads to a text. -/
theorem runJobs_eq_ok_iff {disk : Disk} (hdisk : disk.Rooted) (marker : List Char)
    (jobs : List Job) :
    (∃ summary, (runJobs marker disk jobs).result = .ok summary) ↔
      ∀ job ∈ jobs, ∃ place text, job.Names disk place text := by
  constructor
  · rintro ⟨summary, h⟩
    exact (applied_of_runJobs hdisk h).named
  · intro hnamed
    cases hresult : (runJobs marker disk jobs).result with
    | ok summary => exact ⟨summary, rfl⟩
    | error e =>
        obtain ⟨done, job, rest, -, -, rfl, hnone, -⟩ := runJobs_of_error hdisk hresult
        obtain ⟨place, text, hnames⟩ := hnamed job (by simp)
        exact (hnone place text hnames).elim

/-- Jobs at different places that miss no key by themselves miss none together. -/
theorem missed_of_apart {disk : Disk} (hdisk : disk.Rooted) {marker : List Char}
    {jobs : List Job}
    (hapart : jobs.Pairwise fun a b => disk.place? a.path ≠ disk.place? b.path)
    (hcut : ∀ job ∈ jobs, ∀ place text, job.Names disk place text →
      (cutAll marker text job.keys).missed = []) {summary : Summary}
    (h : (runJobs marker disk jobs).result = .ok summary) : summary.missed = 0 := by
  induction jobs generalizing disk summary with
  | nil =>
      cases h
      rfl
  | cons job jobs ih =>
      obtain ⟨hfirst, hothers⟩ := List.pairwise_cons.mp hapart
      obtain ⟨place, text, hnames⟩ := (applied_of_runJobs hdisk h).named job (by simp)
      obtain ⟨disk', hrun, hwrote⟩ := Job.run_of_names hdisk marker hnames
      rw [(runJobs_cons_of_ok hrun jobs).2] at h
      cases hrest : (runJobs marker disk' jobs).result with
      | error e => simp [hrest, Except.map] at h
      | ok rest =>
          rw [hrest] at h
          obtain rfl := Except.ok.inj h
          have hzero : rest.missed = 0 := by
            refine ih hwrote.rooted ?_ ?_ hrest
            · simpa only [hwrote.place?] using hothers
            · intro next hnext q other hq
              -- the file of the first job is another one
              have hne : q ≠ place := by
                rintro rfl
                rw [Job.Names, hwrote.place?] at hq
                exact hfirst next hnext (hnames.1.trans hq.1.symm)
              rw [Job.Names, hwrote.place?, textAt?_of_wrote hwrote, if_neg hne] at hq
              exact hcut next (by simp [hnext]) q other hq
          have hown := hcut job (by simp) place text hnames
          simp [Summary.add, summaryOf, hzero, hown]

/-- A removal finishes, and then all keys that were asked for under any path of a file
are cut from it together; or it stops at the first path that leads to no text, with the
jobs in front of it done and nothing else. -/
theorem apply_finished_or_stopped {disk : Disk} (hdisk : disk.Rooted) (root : Path)
    (marker : List Char) (reports : List Report) :
    let asked := jobs root reports
    let outcome := apply root marker disk reports
    (∃ summary, outcome.result = .ok summary ∧
        Applied marker disk outcome.disk asked summary) ∨
      ∃ done job rest fault, asked = done ++ job :: rest ∧
        outcome.result = .error (.read job.path fault) ∧
        outcome.disk = (runJobs marker disk done).disk ∧
        (∃ summary, (runJobs marker disk done).result = .ok summary ∧
          Applied marker disk outcome.disk done summary) ∧
        (∀ place text, ¬job.Names disk place text) ∧
        (job.run marker outcome.disk).1 = .error (.read job.path fault) := by
  intro asked outcome
  cases hresult : outcome.result with
  | ok summary => exact Or.inl ⟨summary, rfl, applied_of_runJobs hdisk hresult⟩
  | error e =>
      obtain ⟨done, job, rest, summary, fault, hasked, hnone, rfl, hdone, hsame, hfail⟩ :=
        runJobs_of_error hdisk hresult
      refine Or.inr ⟨done, job, rest, fault, hasked, rfl, hsame.symm, ?_, hnone, hfail⟩
      have happlied := applied_of_runJobs hdisk hdone
      rw [hsame] at happlied
      exact ⟨summary, hdone, happlied⟩

/-- Two spellings of one file. -/
theorem apply_finished_or_stopped_twice :
    let text := "({ a: {}, b: {} })".toList
    let disk : Disk := ⟨.folder [("a.ts", .file (Text.encode text))]⟩
    let outcome := apply ⟨"/"⟩ ['(', '{'] disk
      [[("../a.ts", ["b", "a"])], [("a.ts", ["a"])]]
    disk.Rooted ∧ ∃ summary, outcome.result = .ok summary ∧
      (summary.planned = 3 ∧ summary.removed = 2 ∧ summary.missed = 1) ∧
      outcome.disk.look ["a.ts"] = some (.file (Text.encode "({ })".toList)) := by
  have hup : ∀ bytes, Disk.place? ⟨.folder [("a.ts", .file bytes)]⟩ ⟨"/../a.ts"⟩ =
      some ["a.ts"] :=
    Disk.place?_one_file (by decide +kernel) "a.ts"
  have hdown : ∀ bytes, Disk.place? ⟨.folder [("a.ts", .file bytes)]⟩ ⟨"/a.ts"⟩ =
      some ["a.ts"] :=
    Disk.place?_one_file (by decide +kernel) "a.ts"
  have hjobs : jobs ⟨"/"⟩ [[("../a.ts", ["b", "a"])], [("a.ts", ["a"])]] =
      [⟨⟨"/../a.ts"⟩, ["b", "a"]⟩, ⟨⟨"/a.ts"⟩, ["a"]⟩] := by
    decide +kernel
  intro text disk outcome
  have htext : disk.textAt? ["a.ts"] = some text := Text.decode?_encode text
  have hplaces : placesOf disk (jobs ⟨"/"⟩ [[("../a.ts", ["b", "a"])], [("a.ts", ["a"])]]) =
      {["a.ts"]} := by
    simp [hjobs, placesOf, disk, hup, hdown]
  have hcut : cutAt ['(', '{'] disk
      (jobs ⟨"/"⟩ [[("../a.ts", ["b", "a"])], [("a.ts", ["a"])]]) ["a.ts"] =
      ⟨"({ })".toList, ["b", "a"], ["a"]⟩ := by
    have hkeys : keysAt disk (jobs ⟨"/"⟩ [[("../a.ts", ["b", "a"])], [("a.ts", ["a"])]])
        ["a.ts"] = ["b", "a", "a"] := by
      simp [hjobs, keysAt, disk, hup, hdown]
    rw [cutAt, hkeys, htext]
    decide +kernel
  have hdisk : disk.Rooted := rfl
  refine ⟨hdisk, ?_⟩
  rcases apply_finished_or_stopped hdisk ⟨"/"⟩ ['(', '{']
      [[("../a.ts", ["b", "a"])], [("a.ts", ["a"])]] with
        ⟨summary, hresult, happlied⟩ | hstopped
  · have hplanned := happlied.planned
    have hremoved := happlied.removed
    have haccounted := happlied.accounted
    have hlook := happlied.stripped ["a.ts"] (by rw [hplaces]; simp)
    rw [hplaces, Finset.sum_singleton, hcut] at hremoved
    rw [hjobs] at hplanned
    rw [hcut] at hlook
    simp only [List.map_cons, List.map_nil, List.sum_cons, List.sum_nil, List.length_cons,
      List.length_nil] at hplanned hremoved
    exact ⟨summary, hresult, ⟨hplanned, hremoved, by omega⟩, hlook⟩
  · obtain ⟨done, job, rest, fault, hsplit, -, -, -, hnone, -⟩ := hstopped
    have hjob : job ∈ jobs ⟨"/"⟩ [[("../a.ts", ["b", "a"])], [("a.ts", ["a"])]] := by
      rw [hsplit]
      simp
    rw [hjobs, List.mem_pair] at hjob
    rcases hjob with rfl | rfl
    · exact (hnone _ _ ⟨hup _, htext⟩).elim
    · exact (hnone _ _ ⟨hdown _, htext⟩).elim

end Removal

end StylePrune
