import Mathlib.Data.List.Pairwise
import Mathlib.Data.String.Basic
import StylePrune.Report

/-!
# The files of a report

A report is a map from file names to keys.  It is kept in increasing order of the
names, and putting in one file changes what is listed for no other.
-/

namespace StylePrune.Report

/-- The files of a report are increasing. -/
def Sorted (report : Report) : Prop :=
  report.Pairwise fun a b => a.1 < b.1

theorem Sorted.nodup {report : Report} (h : report.Sorted) : (report.map Prod.fst).Nodup :=
  List.pairwise_map.mpr (h.imp fun hlt => hlt.ne)

theorem lookup_insert (report : Report) (file f : String) (keys : List String) :
    (report.insert file keys).lookup f =
      if f = file then some keys else report.lookup f := by
  induction report with
  | nil =>
      by_cases hf : f = file
      · simp [insert, hf]
      · simp [insert, List.lookup_cons, hf, beq_eq_false_iff_ne.mpr hf]
  | cons entry rest ih =>
      obtain ⟨g, ks⟩ := entry
      rw [insert]
      by_cases hlt : file < g
      · rw [if_pos hlt, List.lookup_cons]
        by_cases hf : f = file
        · simp [hf]
        · simp [hf, beq_eq_false_iff_ne.mpr hf]
      · rw [if_neg hlt]
        by_cases heq : file = g
        · subst heq
          rw [if_pos rfl, List.lookup_cons, List.lookup_cons]
          by_cases hf : f = file
          · simp [hf]
          · simp [hf, beq_eq_false_iff_ne.mpr hf]
        · rw [if_neg heq, List.lookup_cons, List.lookup_cons, ih]
          by_cases hg : f = g
          · subst hg
            simp [Ne.symm heq]
          · simp [beq_eq_false_iff_ne.mpr hg]

theorem fst_of_mem_insert {report : Report} {file : String} {keys : List String}
    {entry : String × List String} (h : entry ∈ report.insert file keys) :
    entry.1 = file ∨ entry ∈ report := by
  induction report with
  | nil => exact Or.inl (congrArg Prod.fst (List.mem_singleton.mp h))
  | cons head rest ih =>
      obtain ⟨g, ks⟩ := head
      rw [insert] at h
      split at h
      · rcases List.mem_cons.mp h with rfl | h
        · exact Or.inl rfl
        · exact Or.inr h
      · split at h
        · rename_i heq
          rcases List.mem_cons.mp h with rfl | h
          · exact Or.inl heq.symm
          · exact Or.inr (List.mem_cons_of_mem _ h)
        · rcases List.mem_cons.mp h with rfl | h
          · exact Or.inr List.mem_cons_self
          · exact (ih h).imp_right (List.mem_cons_of_mem _)

theorem sorted_insert {report : Report} (h : report.Sorted) (file : String)
    (keys : List String) : (report.insert file keys).Sorted := by
  induction report with
  | nil => exact List.pairwise_singleton _ _
  | cons head rest ih =>
      obtain ⟨g, ks⟩ := head
      obtain ⟨hhead, hrest⟩ := List.pairwise_cons.mp h
      rw [insert]
      split
      · rename_i hlt
        refine List.pairwise_cons.mpr ⟨?_, h⟩
        intro entry hentry
        rcases List.mem_cons.mp hentry with rfl | hentry
        · exact hlt
        · exact hlt.trans (hhead entry hentry)
      · rename_i hlt
        split
        · exact List.pairwise_cons.mpr ⟨hhead, hrest⟩
        · rename_i hne
          refine List.pairwise_cons.mpr ⟨?_, ih hrest⟩
          have hgt : g < file := lt_of_le_of_ne (not_lt.mp hlt) (Ne.symm hne)
          intro entry hentry
          rcases fst_of_mem_insert hentry with hfile | hentry
          · exact hfile ▸ hgt
          · exact hhead entry hentry

theorem insert_eq_cons {report : Report} {file : String}
    (h : ∀ entry ∈ report, file < entry.1) (keys : List String) :
    report.insert file keys = (file, keys) :: report := by
  cases report with
  | nil => rfl
  | cons head rest => exact if_pos (h head List.mem_cons_self)

/-- The part of a report with some of its files is put together from these files alone. -/
theorem filter_insert {report : Report} (h : report.Sorted) (file : String)
    (keys : List String) (test : String → Bool) :
    (report.insert file keys).filter (fun entry => test entry.1) =
      if test file then (insert file keys (report.filter fun entry => test entry.1))
      else report.filter fun entry => test entry.1 := by
  induction report with
  | nil => by_cases htest : test file = true <;> simp [insert, htest]
  | cons head rest ih =>
      obtain ⟨g, ks⟩ := head
      obtain ⟨hhead, hrest⟩ := List.pairwise_cons.mp h
      rw [insert]
      split
      · rename_i hlt
        have hall : ∀ entry ∈ ((g, ks) :: rest).filter (fun entry => test entry.1),
            file < entry.1 := by
          intro entry hentry
          rcases List.mem_cons.mp (List.mem_of_mem_filter hentry) with rfl | hentry
          · exact hlt
          · exact hlt.trans (hhead entry hentry)
        rw [insert_eq_cons hall, List.filter_cons]
      · rename_i hlt
        split
        · rename_i heq
          subst heq
          by_cases htest : test file = true <;> simp [htest, insert]
        · rename_i hne
          rw [List.filter_cons, ih hrest]
          by_cases hg : test g = true <;> by_cases htest : test file = true <;>
            simp [hg, htest, insert, hlt, hne]

end StylePrune.Report
