import StylePrune.Proofs.Removal.Run

/-!
# What a removal does not look at

Two disks may differ at one place.  What is read along paths that lead elsewhere is the
same on both, and a job whose path leads elsewhere does the same to both: it fails on
both, or it cuts the same keys and leaves the disks alike but for that place.  So does a
run of such jobs.
-/

namespace StylePrune

namespace Disk

/-- Every path leads to the same place on two disks, and the same is seen on them everywhere
but at one place. -/
structure SameBut (spared : List String) (disk other : Disk) : Prop where
  rooted : disk.Rooted
  rooted_other : other.Rooted
  place? : ∀ path, other.place? path = disk.place? path
  look : ∀ place, place ≠ spared → other.look place = disk.look place

theorem isPresent_iff {disk : Disk} (hdisk : disk.Rooted) {path : Path} :
    disk.isPresent path = true ↔
      ∃ place seen, disk.place? path = some place ∧ disk.look place = some seen := by
  rcases locate_cases hdisk path with ⟨fault, h⟩ | ⟨spot, h, hspot⟩
  · simp [isPresent, node, place?, h, endOf, Except.toOption]
  · cases spot with
    | absent place =>
        have hlook : disk.look place = none := hspot.1
        simp [isPresent, node, place?, h, endOf, Except.toOption, Spot.place, hlook]
    | found place node =>
        have hlook : disk.look place = some node.sight := by
          rw [look, Node.look, hspot]
          rfl
        simp [isPresent, Disk.node, place?, h, endOf, Except.toOption, Spot.place, hlook]

namespace SameBut

variable {spared : List String} {disk other : Disk}

/-- Writing a file changes a disk at one place. -/
theorem of_wrote (hdisk : disk.Rooted) {bytes : ByteArray}
    (h : disk.Wrote other spared bytes) : SameBut spared disk other := by
  refine ⟨hdisk, h.rooted, h.place?, ?_⟩
  intro place hplace
  rw [h.look, if_neg hplace]

/-- Writing the same file on both disks leaves them alike. -/
theorem wrote (h : SameBut spared disk other) {disk' other' : Disk} {place : List String}
    {bytes : ByteArray} (hdisk : disk.Wrote disk' place bytes)
    (hother : other.Wrote other' place bytes) : SameBut spared disk' other' := by
  refine ⟨hdisk.rooted, hother.rooted, ?_, ?_⟩
  · intro path
    rw [hother.place?, hdisk.place?, h.place?]
  · intro q hq
    rw [hother.look, hdisk.look, h.look q hq]

theorem textAt? (h : SameBut spared disk other) {place : List String}
    (hplace : place ≠ spared) :
    other.textAt? place = disk.textAt? place := by
  rw [Disk.textAt?, Disk.textAt?, h.look place hplace]

theorem isPresent (h : SameBut spared disk other) {path : Path}
    (hpath : disk.place? path ≠ some spared) :
    other.isPresent path = disk.isPresent path := by
  rw [Bool.eq_iff_iff, isPresent_iff h.rooted_other, isPresent_iff h.rooted]
  refine exists_congr fun place => exists_congr fun seen => ?_
  rw [h.place?]
  refine and_congr_right fun hplace => ?_
  have hne : place ≠ spared := fun heq => hpath (heq ▸ hplace)
  rw [h.look place hne]

theorem readText_eq_ok_iff (h : SameBut spared disk other) {path : Path}
    (hpath : disk.place? path ≠ some spared) {text : List Char} :
    other.readText path = .ok text ↔ disk.readText path = .ok text := by
  rw [Disk.readText_eq_ok_iff h.rooted_other, Disk.readText_eq_ok_iff h.rooted]
  refine exists_congr fun place => ?_
  rw [h.place?]
  refine and_congr_right fun hplace => ?_
  have hne : place ≠ spared := fun heq => hpath (heq ▸ hplace)
  rw [h.textAt? hne]

end SameBut

end Disk

namespace Removal

open Literal

variable {spared : List String} {disk other : Disk}

theorem Job.names_iff_of_sameBut (h : disk.SameBut spared other) {job : Job}
    (hjob : disk.place? job.path ≠ some spared) {place : List String} {text : List Char} :
    job.Names other place text ↔ job.Names disk place text := by
  unfold Job.Names
  rw [h.place?]
  refine and_congr_right fun hplace => ?_
  have hne : place ≠ spared := fun heq => hjob (heq ▸ hplace)
  rw [h.textAt? hne]

/-- A job does the same to both disks, or nothing to either. -/
theorem Job.run_of_sameBut (h : disk.SameBut spared other) (marker : List Char) {job : Job}
    (hjob : disk.place? job.path ≠ some spared) :
    (∃ disk' other' summary, (job.run marker disk).1 = .ok (disk', summary) ∧
        (job.run marker other).1 = .ok (other', summary) ∧ disk'.SameBut spared other' ∧
        ∀ path, disk'.place? path = disk.place? path) ∨
      ∃ e e', (job.run marker disk).1 = .error e ∧
        (job.run marker other).1 = .error e' := by
  by_cases hnames : ∃ place text, job.Names disk place text
  · obtain ⟨place, text, hnames⟩ := hnames
    obtain ⟨disk', hrun, hwrote⟩ := Job.run_of_names h.rooted marker hnames
    obtain ⟨other', hrun', hwrote'⟩ := Job.run_of_names h.rooted_other marker
      ((Job.names_iff_of_sameBut h hjob).mpr hnames)
    exact Or.inl ⟨disk', other', _, hrun, hrun', h.wrote hwrote hwrote', hwrote.place?⟩
  · obtain ⟨fault, hrun⟩ := Job.run_of_not_names h.rooted marker
      fun place text hjob => hnames ⟨place, text, hjob⟩
    obtain ⟨fault', hrun'⟩ := Job.run_of_not_names h.rooted_other marker
      fun place text hother =>
        hnames ⟨place, text, (Job.names_iff_of_sameBut h hjob).mp hother⟩
    exact Or.inr ⟨_, _, hrun, hrun'⟩

/-- A run whose paths lead elsewhere ends alike on both disks and leaves them alike. -/
theorem runJobs_of_sameBut (h : disk.SameBut spared other) (marker : List Char)
    {jobs : List Job} (hjobs : ∀ job ∈ jobs, disk.place? job.path ≠ some spared) :
    (runJobs marker other jobs).result.toOption =
      (runJobs marker disk jobs).result.toOption ∧
      (runJobs marker disk jobs).disk.SameBut spared (runJobs marker other jobs).disk := by
  induction jobs generalizing disk other with
  | nil => exact ⟨rfl, h⟩
  | cons job jobs ih =>
      obtain ⟨hjob, hrest⟩ := List.forall_mem_cons.mp hjobs
      rcases Job.run_of_sameBut h marker hjob with
        ⟨disk', other', summary, hrun, hrun', hsame, hplace⟩ | ⟨e, e', hrun, hrun'⟩
      · obtain ⟨hdisk, hresult⟩ := runJobs_cons_of_ok hrun jobs
        obtain ⟨hdisk', hresult'⟩ := runJobs_cons_of_ok hrun' jobs
        obtain ⟨hoption, hleft⟩ := ih hsame fun next hnext => by
          rw [hplace]
          exact hrest next hnext
        have hmap : ∀ result : Except ScanError Summary,
            (result.map summary.add).toOption = result.toOption.map summary.add := by
          intro result
          cases result <;> rfl
        rw [hresult, hresult', hdisk, hdisk', hmap, hmap, hoption]
        exact ⟨rfl, hleft⟩
      · obtain ⟨hdisk, hresult⟩ := runJobs_cons_of_error hrun jobs
        obtain ⟨hdisk', hresult'⟩ := runJobs_cons_of_error hrun' jobs
        rw [hresult, hresult', hdisk, hdisk']
        exact ⟨rfl, h⟩

end Removal

end StylePrune
