import Mathlib.Data.List.Basic
import Mathlib.Data.List.TakeWhile
import StylePrune.Text.Blank
import StylePrune.Text.Bytes

/-!
# Runs of characters of one class

Scanners take the longest run of a class of characters from the front of a
text, or drop it from the end.  The lemmas here say where such a run stops.
They are stated through a split of the text into the run and the rest, and so
are the facts on slices between two offsets.
-/

namespace StylePrune.Text

/-- What a text is asked character by character holds of each of its characters. -/
theorem forall_mem_of_all {p : Char → Prop} [DecidablePred p] {text : List Char}
    (h : (text.all fun c => decide (p c)) = true) : ∀ c ∈ text, p c := by
  simpa using h

theorem isBlank_of_mem_space : ∀ c ∈ [' '], isBlank c = true :=
  List.forall_mem_singleton.mpr rfl

theorem head?_dropWhile_eq_false {p : Char → Bool} {cs : List Char} {c : Char}
    (h : (cs.dropWhile p).head? = some c) : p c = false := by
  have hstop := List.head?_dropWhile_not p cs
  rw [h] at hstop
  simpa using hstop

theorem takeWhile_append_eq {p : Char → Bool} {run rest : List Char}
    (hrun : ∀ c ∈ run, p c = true) (hrest : ∀ c, rest.head? = some c → p c = false) :
    (run ++ rest).takeWhile p = run := by
  have hstop : rest.takeWhile p = [] := by
    cases rest with
    | nil => rfl
    | cons c rest => simp [hrest c rfl]
  rw [List.takeWhile_append_of_pos hrun, hstop, List.append_nil]

theorem dropWhile_append_eq {p : Char → Bool} {run rest : List Char}
    (hrun : ∀ c ∈ run, p c = true) (hrest : ∀ c, rest.head? = some c → p c = false) :
    (run ++ rest).dropWhile p = rest := by
  rw [List.dropWhile_append_of_pos hrun]
  cases rest with
  | nil => rfl
  | cons c rest => simp [hrest c rfl]

theorem dropEndWhile_append_of_all {p : Char → Bool} {run : List Char}
    (h : ∀ c ∈ run, p c = true) (front : List Char) :
    dropEndWhile p (front ++ run) = dropEndWhile p front := by
  have hrun : ∀ c ∈ run.reverse, p c = true := by simpa using h
  rw [dropEndWhile, List.reverse_append, List.dropWhile_append_of_pos hrun, dropEndWhile]

/-- A text that does not end in the class shields what stands in front of it. -/
theorem dropEndWhile_append_of_exists {p : Char → Bool} {back : List Char}
    (h : ∃ c ∈ back, p c = false) (front : List Char) :
    dropEndWhile p (front ++ back) = front ++ dropEndWhile p back := by
  have hne : (back.reverse.dropWhile p).isEmpty = false := by
    obtain ⟨c, hc, hp⟩ := h
    by_contra hempty
    simp only [Bool.not_eq_false, List.isEmpty_iff, List.dropWhile_eq_nil_iff] at hempty
    simp [hempty c (by simpa using hc)] at hp
  rw [dropEndWhile, List.reverse_append, List.dropWhile_append, if_neg (by simp [hne]),
    List.reverse_append, List.reverse_reverse, dropEndWhile]

theorem dropEndWhile_append_of_last {p : Char → Bool} {front : List Char} {c : Char}
    (h : p c = false) (back : List Char) :
    dropEndWhile p (front ++ [c] ++ back) = front ++ [c] ++ dropEndWhile p back := by
  by_cases hback : ∃ d ∈ back, p d = false
  · exact dropEndWhile_append_of_exists hback _
  · have hall : ∀ d ∈ back, p d = true := by simpa using hback
    have hnil : dropEndWhile p back = [] := by
      simpa using dropEndWhile_append_of_all hall []
    rw [dropEndWhile_append_of_all hall, hnil, dropEndWhile_concat, h]
    simp

theorem dropEndWhile_eq_nil_iff {p : Char → Bool} {cs : List Char} :
    dropEndWhile p cs = [] ↔ ∀ c ∈ cs, p c = true := by
  simp [dropEndWhile]

theorem exists_dropEndWhile_append (p : Char → Bool) (cs : List Char) :
    ∃ run, cs = dropEndWhile p cs ++ run ∧ ∀ c ∈ run, p c = true := by
  refine ⟨(cs.reverse.takeWhile p).reverse, ?_, ?_⟩
  · rw [dropEndWhile, ← List.reverse_append, List.takeWhile_append_dropWhile,
      List.reverse_reverse]
  · intro c hc
    exact List.mem_takeWhile_imp (List.mem_reverse.mp hc)

theorem getLast?_dropEndWhile_eq_false {p : Char → Bool} {cs : List Char} {c : Char}
    (h : (dropEndWhile p cs).getLast? = some c) : p c = false := by
  rw [dropEndWhile, List.getLast?_reverse] at h
  exact head?_dropWhile_eq_false h

theorem dropEndWhile_eq_self_of_last {p : Char → Bool} {cs : List Char}
    (h : ∀ c, cs.getLast? = some c → p c = false) : dropEndWhile p cs = cs := by
  rcases List.eq_nil_or_concat cs with rfl | ⟨cs, c, rfl⟩
  · rfl
  · simp [dropEndWhile_concat, h c (by simp)]

/-! ## Trimming -/

/-- A text that begins and ends with something else than white space. -/
structure IsTight (text : List Char) : Prop where
  ne_nil : text ≠ []
  head : ∀ c, text.head? = some c → isBlank c = false
  last : ∀ c, text.getLast? = some c → isBlank c = false

/-- A text is tight if no white space stands at its ends. -/
theorem isTight_of_ends {text : List Char} (hhead : text.head?.any (!isBlank ·) = true)
    (hlast : text.getLast?.any (!isBlank ·) = true) : IsTight text where
  ne_nil := by
    rintro rfl
    cases hhead
  head := by
    intro c hc
    simpa [hc] using hhead
  last := by
    intro c hc
    simpa [hc] using hlast

theorem IsTight.append {front back : List Char} (hfront : IsTight front)
    (hback : IsTight back) (mid : List Char) : IsTight (front ++ mid ++ back) where
  ne_nil := by simp [hfront.ne_nil]
  head := by
    intro c hc
    rw [List.append_assoc, List.head?_append_of_ne_nil _ hfront.ne_nil] at hc
    exact hfront.head c hc
  last := by
    intro c hc
    rw [List.getLast?_append_of_ne_nil _ hback.ne_nil] at hc
    exact hback.last c hc

/-- White space around a tight text is trimmed, and nothing else. -/
theorem IsTight.trim_append {text before after : List Char} (h : IsTight text)
    (hbefore : ∀ c ∈ before, isBlank c = true) (hafter : ∀ c ∈ after, isBlank c = true) :
    trim (before ++ (text ++ after)) = text := by
  have hstart : trimStart (before ++ (text ++ after)) = text ++ after := by
    refine dropWhile_append_eq hbefore fun c hc => h.head c ?_
    rwa [List.head?_append_of_ne_nil _ h.ne_nil] at hc
  rw [trim, hstart, dropEndWhile_append_of_all hafter, dropEndWhile_eq_self_of_last h.last]

theorem IsTight.trim_append_left {text before : List Char} (h : IsTight text)
    (hbefore : ∀ c ∈ before, isBlank c = true) : trim (before ++ text) = text := by
  simpa using h.trim_append hbefore (List.forall_mem_nil _)

theorem IsTight.trim_append_right {text after : List Char} (h : IsTight text)
    (hafter : ∀ c ∈ after, isBlank c = true) : trim (text ++ after) = text :=
  h.trim_append (List.forall_mem_nil _) hafter

theorem trim_eq_nil_iff {cs : List Char} :
    trim cs = [] ↔ ∀ c ∈ cs, isBlank c = true := by
  rw [trim, trimStart, dropEndWhile_eq_nil_iff]
  constructor
  · intro h c hc
    rw [← List.takeWhile_append_dropWhile (p := isBlank) (l := cs)] at hc
    rcases List.mem_append.mp hc with hfront | hback
    · exact List.mem_takeWhile_imp hfront
    · exact h c hback
  · intro h c hc
    exact h c ((List.dropWhile_sublist _).subset hc)

/-! ## Slices -/

/-- The part of a text between two byte offsets. -/
def between (start stop : Nat) (text : List Char) : List Char :=
  after start (before stop text)

theorem between_size (front slice back : List Char) :
    between (size front) (size front + size slice) (front ++ slice ++ back) = slice := by
  rw [between, ← size_append, before_size, after_size]

theorem after_size_add (front back : List Char) (n : Nat) :
    after (size front + n) (front ++ back) = after n back := by
  induction front with
  | nil => simp
  | cons c front ih =>
      have hc : c.utf8Size + size front + n ≠ 0 := by
        have := c.utf8Size_pos
        omega
      have hn : c.utf8Size + size front + n - c.utf8Size = size front + n := by omega
      rw [List.cons_append, size_cons, after, if_neg hc, hn, ih]

end StylePrune.Text
