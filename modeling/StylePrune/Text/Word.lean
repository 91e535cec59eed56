import StylePrune.Text.Letter
import StylePrune.Text.Mark
import StylePrune.Text.Number

/-!
# Words

The character classes that names are made of: the alphanumeric characters of any script,
the wider class of word characters, and the two classes that identifiers of a script
begin and continue with.
-/

namespace StylePrune.Text

/-- A letter-like character or a number of any script. -/
def isAlphanumeric (c : Char) : Bool :=
  isAlphabetic c || isDigit c || isOtherNumber c

/-- The punctuation that connects words, such as the low line. -/
def isConnector (c : Char) : Bool :=
  inRanges [(0x5F, 0x5F), (0x203F, 0x2040), (0x2054, 0x2054), (0xFE33, 0xFE34),
    (0xFE4D, 0xFE4F), (0xFF3F, 0xFF3F)] c

/-- The zero-width joiner and non-joiner. -/
def isJoinControl (c : Char) : Bool :=
  c.toNat == 0x200C || c.toNat == 0x200D

/-- A word character: alphabetic, a mark, a digit, a connector or a join control. -/
def isWordChar (c : Char) : Bool :=
  isAlphabetic c || isMark c || isDigit c || isConnector c || isJoinControl c

/-- A character that an identifier of any script may begin with. -/
def isIdentifierStart (c : Char) : Bool :=
  isLetter c ||
    inRanges [(0x1885, 0x1886), (0x2118, 0x2118), (0x212E, 0x212E), (0x309B, 0x309C)] c

/-- A character that an identifier of any script may go on with. -/
def isIdentifierPart (c : Char) : Bool :=
  isIdentifierStart c || (isMark c && !isEnclosingMark c) || isDigit c || isConnector c ||
    inRanges [(0xB7, 0xB7), (0x387, 0x387), (0x1369, 0x1371), (0x19DA, 0x19DA),
      (0x30FB, 0x30FB), (0xFF65, 0xFF65)] c

end StylePrune.Text
