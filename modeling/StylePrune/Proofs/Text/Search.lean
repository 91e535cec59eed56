import Mathlib.Data.List.Infix
import StylePrune.Text.Search

/-!
# First occurrences

A search answers with the text in front of the first occurrence of a needle.
`FirstAt` says what first means, and that a text may be changed behind the
needle without moving it.
-/

namespace StylePrune.Text

/-- In `front`, `needle` and `rest`, put together, the needle does not occur
before it stands behind `front`. -/
def FirstAt (needle front rest : List Char) : Prop :=
  ∀ front' rest', front' ++ needle ++ rest' = front ++ needle ++ rest →
    front.length ≤ front'.length

/-- A search finds the first occurrence. -/
theorem firstAt_of_splitFirst {needle text front rest : List Char}
    (h : splitFirst needle text = some (front, rest)) : FirstAt needle front rest := by
  rintro front' rest' heq
  rw [← splitFirst_eq_some h] at heq
  induction text generalizing front front' with
  | nil =>
      have hfront := splitFirst_eq_some h
      simp only [List.nil_eq, List.append_eq_nil_iff] at hfront
      simp [hfront.1.1]
  | cons c cs ih =>
      rw [splitFirst] at h
      split at h
      · obtain ⟨rfl, rfl⟩ := Prod.mk.inj (Option.some.inj h)
        exact Nat.zero_le _
      · rename_i hnone
        obtain ⟨⟨f, r⟩, hf, he⟩ := Option.map_eq_some_iff.mp h
        obtain ⟨rfl, rfl⟩ := Prod.mk.inj he
        cases front' with
        | nil =>
            rw [List.nil_append] at heq
            have hsome := List.isPrefixOf?_eq_some_iff_append_eq.mpr heq
            rw [hnone] at hsome
            cases hsome
        | cons d front' =>
            simp only [List.cons_append, List.cons.injEq] at heq
            exact Nat.succ_le_succ (ih hf front' heq.2)

theorem isPrefixOf?_eq_none_iff {needle text : List Char} :
    needle.isPrefixOf? text = none ↔ ¬ needle <+: text := by
  constructor
  · rintro hnone ⟨rest, hrest⟩
    rw [List.isPrefixOf?_eq_some_iff_append_eq.mpr hrest] at hnone
    cases hnone
  · intro h
    by_contra hsome
    obtain ⟨rest, hrest⟩ := Option.ne_none_iff_exists'.mp hsome
    exact h ⟨rest, List.isPrefixOf?_eq_some_iff_append_eq.mp hrest⟩

theorem splitFirst_eq_none_iff {needle text : List Char} :
    splitFirst needle text = none ↔ ¬ needle <:+: text := by
  induction text with
  | nil => by_cases h : needle = [] <;> simp [splitFirst, h]
  | cons c cs ih =>
      rw [splitFirst, List.infix_cons_iff, not_or, ← isPrefixOf?_eq_none_iff, ← ih]
      split
      · rename_i rest hrest
        simp [hrest]
      · rename_i hnone
        simp [hnone]

theorem splitFirst_of_firstAt {needle front rest : List Char}
    (h : FirstAt needle front rest) :
    splitFirst needle (front ++ needle ++ rest) = some (front, rest) := by
  cases hsplit : splitFirst needle (front ++ needle ++ rest) with
  | none =>
      rw [splitFirst_eq_none_iff] at hsplit
      exact (hsplit ⟨front, rest, rfl⟩).elim
  | some parts =>
      obtain ⟨front', rest'⟩ := parts
      have heq := splitFirst_eq_some hsplit
      have hle := h front' rest' heq.symm
      have hge := firstAt_of_splitFirst hsplit front rest heq
      rw [List.append_assoc, List.append_assoc] at heq
      obtain ⟨rfl, hback⟩ := List.append_inj heq (Nat.le_antisymm hle hge)
      rw [List.append_cancel_left hback]

theorem firstAt_iff_splitFirst {needle front rest : List Char} :
    FirstAt needle front rest ↔
      splitFirst needle (front ++ needle ++ rest) = some (front, rest) :=
  ⟨splitFirst_of_firstAt, firstAt_of_splitFirst⟩

/-- What stands behind the first occurrence may change. -/
theorem FirstAt.replace {needle front rest : List Char} (h : FirstAt needle front rest)
    (rest' : List Char) : FirstAt needle front rest' := by
  intro front' tail heq
  by_contra hlt
  -- an earlier occurrence would lie in the part that does not change
  have hshort : (front' ++ needle).length ≤ (front ++ needle).length := by
    simp only [List.length_append]
    omega
  have hprefix : front' ++ needle <+: front ++ needle :=
    List.prefix_of_prefix_length_le ⟨tail, heq⟩ (List.prefix_append _ rest') hshort
  obtain ⟨gap, hgap⟩ := hprefix
  have hle := h front' (gap ++ rest) (by rw [← hgap]; simp)
  exact hlt hle

/-- A piece of text without the character that the rest goes on with lies in front of it. -/
theorem exists_append_of_notMem {c : Char} {piece rest front back : List Char}
    (h : c ∉ piece) (heq : piece ++ rest = front ++ c :: back) :
    ∃ front', front = piece ++ front' ∧ rest = front' ++ c :: back := by
  rcases List.append_eq_append_iff.mp heq with
    ⟨front', hfront, hrest⟩ | ⟨back', hpiece, hback⟩
  · exact ⟨front', hfront, hrest⟩
  · cases back' with
    | nil => exact ⟨[], by simpa using hpiece.symm, by simpa using hback.symm⟩
    | cons d back' =>
        obtain ⟨rfl, -⟩ := List.cons.inj hback
        exact absurd (by simp [hpiece]) h

/-- A needle is first at its first character. -/
theorem firstAt_of_notMem {c : Char} {needle front : List Char} (h : c ∉ front)
    (rest : List Char) : FirstAt (c :: needle) front rest := by
  intro front' rest' heq
  simp only [List.append_assoc, List.cons_append] at heq
  obtain ⟨mid, rfl, -⟩ := exists_append_of_notMem h heq.symm
  simp

/-- A needle is last at its last character. -/
theorem splitLast_append_of_notMem {c : Char} {needle back : List Char} (h : c ∉ back)
    (front : List Char) :
    splitLast (needle ++ [c]) (front ++ (needle ++ [c]) ++ back) = some (front, back) := by
  have hfirst : FirstAt (c :: needle.reverse) back.reverse front.reverse :=
    firstAt_of_notMem (by simpa using h) _
  have hreverse : (front ++ (needle ++ [c]) ++ back).reverse =
      back.reverse ++ (c :: needle.reverse) ++ front.reverse := by simp
  rw [splitLast, hreverse, List.reverse_append, List.reverse_singleton,
    List.singleton_append, splitFirst_of_firstAt hfirst]
  simp

/-- A text without a character of a needle has no occurrence of it. -/
theorem splitFirst_eq_none_of_notMem {c : Char} {needle text : List Char} (hc : c ∈ needle)
    (h : c ∉ text) : splitFirst needle text = none :=
  splitFirst_eq_none_iff.mpr fun hpart => h (hpart.subset hc)

theorem splitLast_eq_none_of_notMem {c : Char} {needle text : List Char} (hc : c ∈ needle)
    (h : c ∉ text) : splitLast needle text = none := by
  have hnone : splitFirst needle.reverse text.reverse = none :=
    splitFirst_eq_none_of_notMem (c := c) (by simpa using hc) (by simpa using h)
  rw [splitLast, hnone, Option.map_none]

/-! ## Pieces -/

theorem pieces_of_forall {p : Char → Bool} {text : List Char}
    (h : ∀ c ∈ text, p c = false) :
    pieces p text = [text] := by
  induction text with
  | nil => rfl
  | cons c text ih =>
      obtain ⟨hc, htext⟩ := List.forall_mem_cons.mp h
      rw [pieces, if_neg (by simp [hc]), ih htext]

theorem pieces_append_cons {p : Char → Bool} {piece : List Char} {c : Char}
    (h : ∀ d ∈ piece, p d = false) (hc : p c = true) (text : List Char) :
    pieces p (piece ++ c :: text) = piece :: pieces p text := by
  induction piece with
  | nil => exact if_pos hc
  | cons d piece ih =>
      obtain ⟨hd, hpiece⟩ := List.forall_mem_cons.mp h
      rw [List.cons_append, pieces, if_neg (by simp [hd]), ih hpiece]

/-! ## Single characters -/

theorem splitFirst_singleton_iff {c : Char} {text front rest : List Char} :
    splitFirst [c] text = some (front, rest) ↔ text = front ++ c :: rest ∧ c ∉ front := by
  induction text generalizing front with
  | nil => simp [splitFirst]
  | cons d text ih =>
      have hfront : [c].isPrefixOf? (d :: text) = if c == d then some text else none := by
        cases text <;> rfl
      rw [splitFirst, hfront]
      by_cases hc : c = d
      · subst hc
        cases front with
        | nil => simp [eq_comm]
        | cons a front =>
            simp only [beq_self_eq_true, if_true, Option.some.injEq, Prod.mk.injEq,
              List.cons_append, List.cons.injEq, List.mem_cons, not_or]
            constructor
            · rintro ⟨hnil, -⟩
              cases hnil
            · rintro ⟨⟨rfl, -⟩, hne, -⟩
              exact (hne rfl).elim
      · cases front with
        | nil => simp [hc, Ne.symm hc]
        | cons a front =>
            rw [if_neg (by simpa using hc)]
            constructor
            · intro h
              obtain ⟨⟨f, r⟩, hsplit, heq⟩ := Option.map_eq_some_iff.mp h
              obtain ⟨hcons, rfl⟩ := Prod.mk.inj heq
              obtain ⟨rfl, rfl⟩ := List.cons.inj hcons
              obtain ⟨rfl, hmem⟩ := ih.mp hsplit
              exact ⟨rfl, by simp [hc, hmem]⟩
            · rintro ⟨heq, hmem⟩
              obtain ⟨rfl, rfl⟩ := List.cons.inj heq
              rw [ih.mpr ⟨rfl, fun hfront => hmem (List.mem_cons_of_mem _ hfront)⟩]
              rfl

theorem splitLast_singleton_iff {c : Char} {text front back : List Char} :
    splitLast [c] text = some (front, back) ↔ text = front ++ c :: back ∧ c ∉ back := by
  have hreverse : text.reverse = back.reverse ++ c :: front.reverse ↔
      text = front ++ c :: back := by
    rw [← List.reverse_inj]
    simp
  have hmem : c ∉ back.reverse ↔ c ∉ back := by simp
  rw [← hreverse, ← hmem, ← splitFirst_singleton_iff, splitLast,
    List.reverse_singleton, Option.map_eq_some_iff]
  constructor
  · rintro ⟨⟨f, b⟩, hsplit, heq⟩
    obtain ⟨rfl, rfl⟩ := Prod.mk.inj heq
    simpa using hsplit
  · intro hsplit
    exact ⟨_, hsplit, by simp⟩

end StylePrune.Text
