import Mathlib.Tactic.Tauto
import StylePrune.Literal.Lexeme
import StylePrune.Proofs.Text.Octets
import StylePrune.Text.Word

/-!
# Words and white space

No white space is part of a word, of whatever script.  There are twenty-five characters of
white space, so a class of characters is known to leave them out once it is asked for each.
The identifiers of ASCII are made of characters that are found among the first 128.
-/

namespace StylePrune.Text

/-- The numbers of the characters of white space. -/
def blankNumbers : List Nat :=
  [9, 10, 11, 12, 13, 0x20, 0x85, 0xA0, 0x1680, 0x2000, 0x2001, 0x2002, 0x2003, 0x2004,
    0x2005, 0x2006, 0x2007, 0x2008, 0x2009, 0x200A, 0x2028, 0x2029, 0x202F, 0x205F, 0x3000]

theorem toNat_mem_blankNumbers {c : Char} (h : isBlank c = true) :
    c.toNat ∈ blankNumbers := by
  simp only [isBlank, Bool.or_eq_true, Bool.and_eq_true, decide_eq_true_eq, beq_iff_eq] at h
  simp only [blankNumbers, List.mem_cons, List.not_mem_nil, or_false]
  omega

/-- A class leaves out white space if it leaves out each of its characters. -/
theorem eq_false_of_isBlank {p : Char → Bool}
    (hp : ∀ n ∈ blankNumbers, p (Char.ofNat n) = false) {c : Char} (h : isBlank c = true) :
    p c = false := by
  have hc := hp c.toNat (toNat_mem_blankNumbers h)
  rwa [Char.ofNat_toNat] at hc

theorem isWordChar_eq_false_of_isBlank {c : Char} (h : isBlank c = true) :
    isWordChar c = false :=
  eq_false_of_isBlank (by decide +kernel) h

theorem isWordPart_eq_false_of_isBlank {c : Char} (h : isBlank c = true) :
    Literal.isWordPart c = false :=
  eq_false_of_isBlank (by decide +kernel) h

theorem isAlphanum_of_isWide {c : Char} (h : IsWide c) : c.isAlphanum = false := by
  have hval : 0x80 ≤ c.val.toNat := h
  have hbeyond : ∀ d : Char, d.val.toNat < 0x80 → ¬c.val ≤ d.val := by
    intro d hd hle
    have := UInt32.le_iff_toNat_le.mp hle
    omega
  have hupper : c.isUpper = false :=
    decide_eq_false fun hrange => hbeyond 'Z' (by decide) hrange.2
  have hlower : c.isLower = false :=
    Bool.and_eq_false_iff.mpr (Or.inr (decide_eq_false (hbeyond 'z' (by decide))))
  have hdigit : c.isDigit = false :=
    Bool.and_eq_false_iff.mpr (Or.inr (decide_eq_false (hbeyond '9' (by decide))))
  exact Bool.or_eq_false_iff.mpr ⟨Bool.or_eq_false_iff.mpr ⟨hupper, hlower⟩, hdigit⟩

theorem isWordPart_of_isWide {c : Char} (h : IsWide c) : Literal.isWordPart c = false := by
  have hlow := ne_of_isWide h (d := '_') (by decide)
  have hdollar := ne_of_isWide h (d := '$') (by decide)
  simp [Literal.isWordPart, isAlphanum_of_isWide h, hlow, hdollar]

theorem isWordPart_of_isWordStart {c : Char} (h : Literal.isWordStart c = true) :
    Literal.isWordPart c = true := by
  simp only [Literal.isWordStart, Literal.isWordPart, Char.isAlphanum,
    Bool.or_eq_true] at h ⊢
  tauto

/-- What holds of the ASCII characters of identifiers holds of all characters of
identifiers. -/
theorem of_isWordPart {p : Char → Bool}
    (hp : ∀ n < 128, Literal.isWordPart (Char.ofNat n) = true → p (Char.ofNat n) = true)
    {c : Char} (h : Literal.isWordPart c = true) : p c = true := by
  have hascii : c.toNat < 128 :=
    Nat.lt_of_not_le fun hwide => by simp [isWordPart_of_isWide hwide] at h
  have hc := hp c.toNat hascii
  rw [Char.ofNat_toNat] at hc
  exact hc h

end StylePrune.Text
