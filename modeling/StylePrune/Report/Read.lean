import StylePrune.Json.Read
import StylePrune.Report

/-!
# Reading reports

A report file is a JSON list of objects that map names to lists of texts.
-/

namespace StylePrune.Report

/-- Reads one report. A file that is named twice has the keys that come last. -/
def readOne : Json.Reader Report := fun text =>
  match Json.readObject (Json.readList Json.readString Json.shrinks_readString)
      (Json.shrinks_readList Json.shrinks_readString) text with
  | .error fault => .error fault
  | .ok (pairs, rest) => .ok (Report.ofList pairs, rest)

/-- A report is read off the front. -/
theorem shrinks_readOne : Json.Reader.Shrinks readOne := by
  intro text report after h
  unfold readOne at h
  split at h
  · simp at h
  · rename_i pairs rest hread
    simp only [Except.ok.injEq, Prod.mk.injEq] at h
    exact h.2 ▸ Json.shrinks_readObject _ _ _ _ hread

/-- The reports that the text of a file stands for. -/
def read (text : List Char) : Except Json.Fault (List Report) :=
  Json.readAll (Json.readList readOne shrinks_readOne) text

end StylePrune.Report
