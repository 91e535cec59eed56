import StylePrune.Proofs.Removal.Frame
import StylePrune.Proofs.Report.RoundTrip
import StylePrune.Report.File

/-!
# Report files

A saved report changes the disk at one place, and along every path that leads there the same
reports are loaded again, whatever characters their names have.
-/

namespace StylePrune.Report

/-- A saved report changes the disk at one place, and is read back along each path that
leads there. -/
theorem load_of_save {disk saved : Disk} (hdisk : disk.Rooted) {path : Path}
    {reports : List Report} (hsorted : ∀ report ∈ reports, report.Sorted)
    (h : save disk path reports = .ok saved) :
    ∃ place, disk.place? path = some place ∧ disk.SameBut place saved ∧
      ∀ other, disk.place? other = some place → load saved other = .ok reports := by
  unfold save at h
  split at h
  · cases h
  · rename_i disk' hwrite
    obtain rfl := Except.ok.inj h
    obtain ⟨place, hplace, hwrote⟩ := Disk.wrote_of_write hdisk hwrite
    refine ⟨place, hplace, .of_wrote hdisk hwrote, ?_⟩
    intro other hother
    have hread : disk'.readText other = .ok (write reports) := by
      refine (Disk.readText_eq_ok_iff hwrote.rooted).mpr ⟨place, ?_, ?_⟩
      · rw [hwrote.place?, hother]
      · rw [Removal.textAt?_of_wrote hwrote, if_pos rfl]
    simp only [load, hread, read_write_of_sorted hsorted]

/-- Reports survive their file.  The text of a list of reports is read as that list
exactly if each report is a map, with its files in increasing order; no other list has
the same text; and maps that were saved along a path are loaded along it again. -/
theorem reports_survive_file (reports : List Report) :
    (read (write reports) = .ok reports ↔ ∀ report ∈ reports, report.Sorted) ∧
      (∀ others, write others = write reports → others = reports) ∧
      ∀ (disk saved : Disk) (path : Path), disk.Rooted →
        (∀ report ∈ reports, report.Sorted) → save disk path reports = .ok saved →
        load saved path = .ok reports := by
  refine ⟨read_write_iff, fun others h => write_injective h, ?_⟩
  intro disk saved path hdisk hsorted hsaved
  obtain ⟨place, hplace, -, hload⟩ := load_of_save hdisk hsorted hsaved
  exact hload path hplace

/-- Names with quotes, backslashes, control characters and none at all, beside empty
lists and an empty report. -/
theorem reports_survive_file_odd :
    let reports : List Report :=
      [[("", []), ("a\"\\\n\x01\x7f.ts", ["", "\t\"", "\u2028😀"]), ("é/\\", ["\\"])], []]
    let disk : Disk := ⟨.folder [("a.ts", .file (Text.encode []))]⟩
    (∀ report ∈ reports, report.Sorted) ∧ disk.Rooted ∧
      ∃ saved, save disk ⟨"/r.json"⟩ reports = .ok saved ∧
        load saved ⟨"/r.json"⟩ = .ok reports := by
  intro reports disk
  have hsorted : ∀ report ∈ reports, report.Sorted := by
    unfold Sorted
    decide +kernel
  have hlocate : disk.locate ⟨"/r.json"⟩ = .ok (.absent ["r.json"]) := by
    rw [Disk.locate_one_file (by decide +kernel : Disk.IsAtRoot ⟨"/r.json"⟩ "r.json"),
      if_neg (by decide)]
  have hlast : ("/r.json" : String).toList.getLast? ≠ some '/' := by decide +kernel
  obtain ⟨saved, hsaved⟩ : ∃ saved, save disk ⟨"/r.json"⟩ reports = .ok saved := by
    rw [save, Disk.write_of_absent hlocate hlast]
    exact ⟨_, rfl⟩
  exact ⟨hsorted, rfl, saved, hsaved,
    (reports_survive_file reports).2.2 disk saved ⟨"/r.json"⟩ rfl hsorted hsaved⟩

end StylePrune.Report
