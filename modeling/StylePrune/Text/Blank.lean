/-!
# White space

Three notions of white space are in use. `isBlank` is Unicode's White_Space property and
decides whether a line or an import item is empty. `isAsciiBlank` is what may stand
between the tokens of a literal. `isTab` holds of the two characters that pad a line
without ending it.
-/

namespace StylePrune.Text

/-- Unicode's White_Space property. -/
def isBlank (c : Char) : Bool :=
  let n := c.toNat
  (9 ≤ n && n ≤ 13) || n == 0x20 || n == 0x85 || n == 0xA0 || n == 0x1680 ||
    (0x2000 ≤ n && n ≤ 0x200A) || n == 0x2028 || n == 0x2029 || n == 0x202F ||
    n == 0x205F || n == 0x3000

/-- Space, tab, line feed, form feed and carriage return. -/
def isAsciiBlank (c : Char) : Bool :=
  c == ' ' || c == '\t' || c == '\n' || c == '\x0c' || c == '\r'

/-- A space or a tab. -/
def isTab (c : Char) : Bool :=
  c == ' ' || c == '\t'

theorem isAsciiBlank_of_isTab {c : Char} (h : isTab c = true) : isAsciiBlank c = true := by
  simp only [isTab, Bool.or_eq_true] at h
  rcases h with h | h <;> simp [isAsciiBlank, h]

/-- Removes the longest end part whose characters all satisfy `p`. -/
def dropEndWhile (p : Char → Bool) (cs : List Char) : List Char :=
  (cs.reverse.dropWhile p).reverse

/-- Removes the white space at the start. -/
def trimStart (cs : List Char) : List Char :=
  cs.dropWhile isBlank

/-- Removes the white space at both ends. -/
def trim (cs : List Char) : List Char :=
  dropEndWhile isBlank (trimStart cs)

@[simp]
theorem dropEndWhile_nil (p : Char → Bool) : dropEndWhile p [] = [] := rfl

theorem dropEndWhile_concat (p : Char → Bool) (cs : List Char) (c : Char) :
    dropEndWhile p (cs ++ [c]) = if p c then dropEndWhile p cs else cs ++ [c] := by
  by_cases h : p c <;> simp [dropEndWhile, h]

end StylePrune.Text
