import StylePrune.Proofs.Text.Runs
import StylePrune.Text.Utf8

/-!
# The bytes of a text, one by one

Whoever walks over the bytes of a text may compare each of them with ASCII characters
and nothing goes wrong: all bytes of any other character are beyond ASCII.  So a walk that
passes over such bytes comes to the end of the character (`skip_wide`), wherever in it
the walk began, and an offset where an ASCII character is read is the size of a front part.
-/

namespace StylePrune.Text

/-- The bytes of a text. -/
def octets (text : List Char) : List UInt8 :=
  text.flatMap String.utf8EncodeChar

/-- The byte at an offset, if there is one, read as the character of its number. -/
def octet? (bytes : List UInt8) (i : Nat) : Option Char :=
  bytes[i]?.map Char.ofUInt8

/-- A character that is not ASCII. -/
def IsWide (c : Char) : Prop :=
  0x80 ≤ c.toNat

instance (c : Char) : Decidable (IsWide c) :=
  inferInstanceAs (Decidable (_ ≤ _))

@[simp]
theorem octets_nil : octets [] = [] := rfl

@[simp]
theorem octets_cons (c : Char) (cs : List Char) :
    octets (c :: cs) = String.utf8EncodeChar c ++ octets cs := rfl

@[simp]
theorem octets_append (cs ds : List Char) : octets (cs ++ ds) = octets cs ++ octets ds :=
  List.flatMap_append

@[simp]
theorem length_octets (text : List Char) : (octets text).length = size text := by
  induction text with
  | nil => rfl
  | cons c cs ih => simp [ih]

/-! ## The bytes of a character -/

theorem toNat_ofUInt8 (b : UInt8) : (Char.ofUInt8 b).toNat = b.toNat :=
  UInt8.toNat_toUInt32 b

theorem exists_octet_of_ascii {c : Char} (h : ¬IsWide c) :
    ∃ b, String.utf8EncodeChar c = [b] ∧ Char.ofUInt8 b = c := by
  have hc : c.val.toNat ≤ 0x7f := by
    have : ¬0x80 ≤ c.val.toNat := h
    omega
  refine ⟨UInt8.ofNat c.val.toNat, ?_, ?_⟩
  · rw [String.utf8EncodeChar]
    exact if_pos hc
  · have hb : (UInt8.ofNat c.val.toNat).toNat = c.toNat := by
      rw [UInt8.toNat_ofNat']
      exact Nat.mod_eq_of_lt (by omega)
    rw [← Char.toNat_inj, toNat_ofUInt8, hb]

theorem isWide_ofUInt8_of_mem {c : Char} (h : IsWide c) {b : UInt8}
    (hb : b ∈ String.utf8EncodeChar c) : IsWide (Char.ofUInt8 b) := by
  have hc : ¬c.val.toNat ≤ 0x7f := by
    have : 0x80 ≤ c.val.toNat := h
    omega
  rw [IsWide, toNat_ofUInt8]
  unfold String.utf8EncodeChar at hb
  simp only [hc, if_false] at hb
  split at hb
  · simp only [List.mem_cons, List.not_mem_nil, or_false] at hb
    rcases hb with rfl | rfl <;> simp only [UInt8.toNat_ofNat'] <;> omega
  split at hb
  · simp only [List.mem_cons, List.not_mem_nil, or_false] at hb
    rcases hb with rfl | rfl | rfl <;> simp only [UInt8.toNat_ofNat'] <;> omega
  · simp only [List.mem_cons, List.not_mem_nil, or_false] at hb
    rcases hb with rfl | rfl | rfl | rfl <;> simp only [UInt8.toNat_ofNat'] <;> omega

theorem utf8Size_of_ascii {c : Char} (h : ¬IsWide c) : c.utf8Size = 1 := by
  obtain ⟨b, hb, -⟩ := exists_octet_of_ascii h
  rw [← String.length_utf8EncodeChar, hb, List.length_singleton]

theorem ne_of_isWide {c d : Char} (hc : IsWide c) (hd : ¬IsWide d) : c ≠ d := by
  rintro rfl
  exact hd hc

/-! ## Bytes at offsets -/

theorem octet?_append_add (front back : List Char) (k : Nat) :
    octet? (octets (front ++ back)) (size front + k) = octet? (octets back) k := by
  rw [octet?, octet?, octets_append, List.getElem?_append_right (by simp), length_octets,
    Nat.add_sub_cancel_left]

theorem octet?_append (front back : List Char) :
    octet? (octets (front ++ back)) (size front) = octet? (octets back) 0 :=
  octet?_append_add front back 0

theorem octet?_cons_ascii {c : Char} (h : ¬IsWide c) (cs : List Char) :
    octet? (octets (c :: cs)) 0 = some c := by
  obtain ⟨b, hb, hchar⟩ := exists_octet_of_ascii h
  simp [octet?, hb, hchar]

theorem exists_octet?_cons_wide {c : Char} (h : IsWide c) (cs : List Char) {k : Nat}
    (hk : k < c.utf8Size) : ∃ d, octet? (octets (c :: cs)) k = some d ∧ IsWide d := by
  have hlength : k < (String.utf8EncodeChar c).length := by simpa using hk
  refine ⟨Char.ofUInt8 (String.utf8EncodeChar c)[k], ?_,
    isWide_ofUInt8_of_mem h (List.getElem_mem _)⟩
  rw [octet?, octets_cons, List.getElem?_append_left hlength,
    List.getElem?_eq_getElem hlength]
  rfl

/-- An ASCII character is read where it stands and nowhere else. -/
theorem octet?_size_iff {front back : List Char} {c : Char} (h : ¬IsWide c) :
    octet? (octets (front ++ back)) (size front) = some c ↔ back.head? = some c := by
  rw [octet?_append]
  cases back with
  | nil => simp [octet?]
  | cons d back =>
      rw [List.head?_cons]
      by_cases hd : IsWide d
      · obtain ⟨e, he, hwide⟩ := exists_octet?_cons_wide hd back d.utf8Size_pos
        rw [he, Option.some.injEq, Option.some.injEq]
        exact iff_of_false (ne_of_isWide hwide h) (ne_of_isWide hd h)
      · rw [octet?_cons_ascii hd]

theorem lt_size_of_octet? {text : List Char} {i : Nat} {c : Char}
    (h : octet? (octets text) i = some c) : i < size text := by
  obtain ⟨b, hb, -⟩ := Option.map_eq_some_iff.mp h
  obtain ⟨hlength, -⟩ := List.getElem?_eq_some_iff.mp hb
  simpa using hlength

/-- What does not change at bytes beyond ASCII does not change up to the end of the
character. -/
theorem skip_wide {α : Type} {f : Nat → α} {text front back : List Char} {c : Char}
    (htext : text = front ++ c :: back) (hc : IsWide c)
    (hf : ∀ i d, octet? (octets text) i = some d → IsWide d → f i = f (i + 1)) {k : Nat}
    (hk : k ≤ c.utf8Size) : f (size front + k) = f (size (front ++ [c])) := by
  have hend : size (front ++ [c]) = size front + c.utf8Size := by simp
  rw [hend]
  induction hn : c.utf8Size - k generalizing k with
  | zero =>
      obtain rfl : k = c.utf8Size := by omega
      rfl
  | succ n ih =>
      obtain ⟨d, hd, hwide⟩ := exists_octet?_cons_wide hc back (k := k) (by omega)
      rw [← octet?_append_add front, ← htext] at hd
      rw [hf _ _ hd hwide, Nat.add_assoc]
      exact ih (by omega) (by omega)

/-- One byte of a character is taken, and the rest of it is passed over. -/
theorem skip_octet {α : Type} {f : Nat → α} {text front back : List Char} {c : Char}
    (htext : text = front ++ c :: back)
    (hf : ∀ i d, octet? (octets text) i = some d → IsWide d → f i = f (i + 1)) :
    f (size front + 1) = f (size (front ++ [c])) := by
  by_cases hc : IsWide c
  · exact skip_wide htext hc hf c.utf8Size_pos
  · rw [size_append, size_cons, utf8Size_of_ascii hc]
    rfl

/-! ## Boundaries -/

/-- An offset is the size of a front part. -/
def isBoundary (text : List Char) (i : Nat) : Bool :=
  size (before i text) = i

theorem isBoundary_append (front back : List Char) :
    isBoundary (front ++ back) (size front) = true := by
  simp [isBoundary]

theorem isBoundary_iff {text : List Char} {i : Nat} :
    isBoundary text i = true ↔ ∃ front back, text = front ++ back ∧ i = size front := by
  constructor
  · intro h
    exact ⟨before i text, after i text, (before_append_after i text).symm,
      (of_decide_eq_true h).symm⟩
  · rintro ⟨front, back, rfl, rfl⟩
    exact isBoundary_append front back

theorem le_size_of_isBoundary {text : List Char} {i : Nat} (h : isBoundary text i = true) :
    i ≤ size text := by
  obtain ⟨front, back, rfl, rfl⟩ := isBoundary_iff.mp h
  simp

/-- Two offsets between characters split a text into three. -/
theorem exists_parts_of_isBoundary {text : List Char} {i j : Nat}
    (hi : isBoundary text i = true) (hj : isBoundary text j = true) (hij : i ≤ j) :
    ∃ front mid back, text = front ++ mid ++ back ∧ i = size front ∧
      j = size (front ++ mid) := by
  obtain ⟨front, rest, htext, rfl⟩ := isBoundary_iff.mp hi
  obtain ⟨front', back, htext', rfl⟩ := isBoundary_iff.mp hj
  rcases List.append_eq_append_iff.mp (htext.symm.trans htext') with
    ⟨mid, rfl, -⟩ | ⟨mid, rfl, -⟩
  · exact ⟨front, mid, back, htext', rfl, rfl⟩
  · have hmid : mid = [] := by
      cases mid with
      | nil => rfl
      | cons c mid =>
          have := c.utf8Size_pos
          simp only [size_append, size_cons] at hij
          omega
    subst hmid
    exact ⟨front', [], back, by simpa using htext', by simp, by simp⟩

end StylePrune.Text
