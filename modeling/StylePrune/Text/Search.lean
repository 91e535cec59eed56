/-!
# Searching and splitting

Plain substring search and the splits that path texts and import clauses are read with. A
search answers with the two parts around the first occurrence, so that the text is the
first part, the needle and the second part: `splitFirst_eq_some` says so.
-/

namespace StylePrune.Text

/-- The parts of a text around the first occurrence of a needle. -/
def splitFirst (needle : List Char) : List Char → Option (List Char × List Char)
  | [] => if needle = [] then some ([], []) else none
  | c :: cs =>
    match needle.isPrefixOf? (c :: cs) with
    | some rest => some ([], rest)
    | none => (splitFirst needle cs).map fun (front, rest) => (c :: front, rest)

/-- Whether a needle occurs in a text. -/
def contains (needle text : List Char) : Bool :=
  (splitFirst needle text).isSome

/-- The parts of a text around the last occurrence of a needle. -/
def splitLast (needle text : List Char) : Option (List Char × List Char) :=
  (splitFirst needle.reverse text.reverse).map fun (back, front) =>
    (front.reverse, back.reverse)

/-- The pieces of a text between the characters that satisfy `p`; there is always at
least one. -/
def pieces (p : Char → Bool) : List Char → List (List Char)
  | [] => [[]]
  | c :: cs =>
    if p c then
      [] :: pieces p cs
    else
      match pieces p cs with
      | [] => [[c]]
      | piece :: rest => (c :: piece) :: rest

/-- The text behind the last line feed. -/
def lastLine (text : List Char) : List Char :=
  (text.reverse.takeWhile (· != '\n')).reverse

/-- The text up to and including the last line feed. -/
def upToLastLine (text : List Char) : List Char :=
  (text.reverse.dropWhile (· != '\n')).reverse

theorem upToLastLine_append_lastLine (text : List Char) :
    upToLastLine text ++ lastLine text = text := by
  rw [upToLastLine, lastLine, ← List.reverse_append, List.takeWhile_append_dropWhile,
    List.reverse_reverse]

theorem eq_append_of_isPrefixOf? {needle text rest : List Char}
    (h : needle.isPrefixOf? text = some rest) :
    text = needle ++ rest := by
  induction needle generalizing text with
  | nil =>
      have hnil : ([] : List Char).isPrefixOf? text = some text := by cases text <;> rfl
      rw [hnil] at h
      simpa using h
  | cons n needle ih =>
      cases text with
      | nil =>
          have hnone : (n :: needle).isPrefixOf? [] = none := rfl
          rw [hnone] at h
          cases h
      | cons c text =>
          have hstep : (n :: needle).isPrefixOf? (c :: text) =
              if n == c then needle.isPrefixOf? text else none := rfl
          rw [hstep] at h
          by_cases hc : n = c
          · subst hc
            simp only [beq_self_eq_true, if_true] at h
            simp [ih h]
          · simp [hc] at h

/-- A successful search splits the text around the needle. -/
theorem splitFirst_eq_some {needle text front rest : List Char}
    (h : splitFirst needle text = some (front, rest)) : text = front ++ needle ++ rest := by
  induction text generalizing front with
  | nil =>
      by_cases hn : needle = []
      · simp_all [splitFirst]
      · simp [splitFirst, hn] at h
  | cons c cs ih =>
      rw [splitFirst] at h
      split at h
      · rename_i r hr
        obtain ⟨rfl, rfl⟩ := Prod.mk.inj (Option.some.inj h)
        simpa using eq_append_of_isPrefixOf? hr
      · obtain ⟨⟨f, r⟩, hf, he⟩ := Option.map_eq_some_iff.mp h
        obtain ⟨rfl, rfl⟩ := Prod.mk.inj he
        simp [ih hf]

end StylePrune.Text
