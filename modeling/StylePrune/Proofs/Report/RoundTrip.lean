import StylePrune.Proofs.Json.RoundTrip
import StylePrune.Proofs.Report.Order
import StylePrune.Report.Read

/-!
# Reports survive their file

Reports are read back from the text they are written as.  The text of a report keeps its
files as they stand, so no two lists of reports have the same text; reading puts the
files in order, so a list comes back as it was exactly if its reports are maps.
-/

namespace StylePrune.Report

theorem insert_of_forall_lt {report : Report} {file : String} (keys : List String)
    (h : ∀ entry ∈ report, entry.1 < file) :
    report.insert file keys = report ++ [(file, keys)] := by
  induction report with
  | nil => rfl
  | cons head rest ih =>
      obtain ⟨g, ks⟩ := head
      have hlt : g < file := h (g, ks) (by simp)
      rw [insert, if_neg hlt.asymm, if_neg hlt.ne',
        ih fun entry hentry => h entry (by simp [hentry])]
      rfl

theorem ofList_of_sorted {report : Report} (h : report.Sorted) :
    ofList report = report := by
  have hfold : ∀ front back : Report, (front ++ back).Sorted →
      back.foldl (fun report entry => report.insert entry.1 entry.2) front =
        front ++ back := by
    intro front back
    induction back generalizing front with
    | nil => simp
    | cons entry back ih =>
        intro hsorted
        obtain ⟨file, keys⟩ := entry
        have hlt : ∀ e ∈ front, e.1 < file :=
          fun e he => (List.pairwise_append.mp hsorted).2.2 e he (file, keys) (by simp)
        have hassoc : front ++ (file, keys) :: back =
            (front ++ [(file, keys)]) ++ back := by simp
        rw [List.foldl_cons]
        simp only [insert_of_forall_lt keys hlt, hassoc]
        exact ih (front ++ [(file, keys)]) (hassoc ▸ hsorted)
  exact hfold [] report h

/-- The files of a report as they stand in its text, whatever their order. -/
def readEntries : Json.Reader (List (String × List String)) :=
  Json.readObject (Json.readList Json.readString Json.shrinks_readString)
    (Json.shrinks_readList Json.shrinks_readString)

theorem takes_readEntries (report : Report) (depth : Nat) :
    Json.Reader.Takes readEntries (report.toJson.spread depth) report := by
  have hkeys : ∀ (depth : Nat) (keys : List String),
      Json.Reader.Takes (Json.readList Json.readString Json.shrinks_readString)
        ((Json.Value.list (keys.map .text)).spread depth) keys := by
    intro depth keys
    refine Json.takes_readList Json.shrinks_readString .text fun key _ => ⟨?_, ?_⟩
    · have hwrite : (Json.Value.text key).spread (depth + 1) =
          Json.writeText key.toList := by
        simp [Json.Value.spread, Json.Value.writePlain]
      rw [hwrite]
      exact Json.takes_readString key
    · exact Json.opens_text key _
  exact Json.takes_readObject _ (fun keys => .list (keys.map .text))
    fun member _ => hkeys (depth + 1) member.2

theorem takes_readOne {report : Report} (h : report.Sorted) (depth : Nat) :
    Json.Reader.Takes readOne (report.toJson.spread depth) report := by
  intro front rest hfront
  have hentries := takes_readEntries report depth front rest hfront
  rw [readEntries] at hentries
  rw [readOne, hentries]
  simp only [ofList_of_sorted h]

/-- The text of a list of reports is read by a reader of the reports in it. -/
theorem readAll_write {read : Json.Reader Report} (shrinks : read.Shrinks)
    {reports : List Report}
    (h : ∀ report ∈ reports, ∀ depth, read.Takes (report.toJson.spread depth) report) :
    Json.readAll (Json.readList read shrinks) (write reports) = .ok reports := by
  have htakes : Json.Reader.Takes (Json.readList read shrinks)
      ((Json.Value.list (reports.map toJson)).spread 0) reports :=
    Json.takes_readList _ _ fun report hreport =>
      ⟨h report hreport 1, Json.opens_object _ _⟩
  have hread := htakes [] [] (by simp [Json.AllBlank])
  rw [List.nil_append, List.append_nil] at hread
  rw [Json.readAll, write, hread]
  rfl

/-- Reports are read back from their text. -/
theorem read_write_of_sorted {reports : List Report}
    (h : ∀ report ∈ reports, report.Sorted) :
    read (write reports) = .ok reports :=
  readAll_write shrinks_readOne fun report hreport => takes_readOne (h report hreport)

/-- Different lists of reports have different texts, also where files are out of order. -/
theorem write_injective : Function.Injective write := by
  have hshrinks : readEntries.Shrinks := Json.shrinks_readObject _
  have hread : ∀ reports,
      Json.readAll (Json.readList readEntries hshrinks) (write reports) = .ok reports :=
    fun reports => readAll_write hshrinks fun report _ => takes_readEntries report
  intro reports others h
  have hothers := hread others
  rw [← h, hread reports] at hothers
  exact Except.ok.inj hothers

/-! ## What a text can be read as -/

theorem sorted_ofList (pairs : List (String × List String)) : (ofList pairs).Sorted := by
  have hfold : ∀ report : Report, report.Sorted →
      (pairs.foldl (fun report entry => report.insert entry.1 entry.2) report).Sorted := by
    induction pairs with
    | nil => exact fun report h => h
    | cons entry pairs ih => exact fun report h => ih _ (sorted_insert h entry.1 entry.2)
  exact hfold [] List.Pairwise.nil

theorem sorted_of_readOne {text rest : List Char} {report : Report}
    (h : readOne text = .ok (report, rest)) : report.Sorted := by
  unfold readOne at h
  split at h
  · cases h
  · rename_i pairs _ _
    obtain ⟨rfl, -⟩ := Prod.mk.inj (Except.ok.inj h)
    exact sorted_ofList pairs

/-- Only maps are ever read. -/
theorem sorted_of_read {text : List Char} {reports : List Report}
    (h : read text = .ok reports) :
    ∀ report ∈ reports, report.Sorted := by
  unfold read Json.readAll at h
  split at h
  · cases h
  · rename_i found rest hread
    split at h
    · obtain rfl := Except.ok.inj h
      exact Json.forall_of_readList (fun _ _ _ => sorted_of_readOne) hread
    · cases h

theorem read_write_iff {reports : List Report} :
    read (write reports) = .ok reports ↔ ∀ report ∈ reports, report.Sorted :=
  ⟨sorted_of_read, read_write_of_sorted⟩

end StylePrune.Report
