/-!
# Ranges of code points

The properties of characters that Unicode lists are kept as increasing lists of closed
ranges of code points.
-/

namespace StylePrune.Text

/-- Whether a character lies in one of the ranges of a table. -/
def inRanges (table : List (Nat × Nat)) (c : Char) : Bool :=
  table.any fun (low, high) => low ≤ c.toNat && c.toNat ≤ high

end StylePrune.Text
