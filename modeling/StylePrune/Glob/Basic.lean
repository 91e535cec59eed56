import StylePrune.Text.Utf8

/-!
# Glob patterns

A pattern is a list of pieces and describes texts byte by byte. A star takes any bytes,
slashes too, and a question mark takes one byte. Two stars that fill a whole segment
stand for any number of segments.

Matching keeps the list of what may still be left to read, so its cost does not grow with
the number of ways in which a text can be matched.
-/

namespace StylePrune

namespace Glob

/-- The bytes that a bracketed class stands for. -/
structure ByteClass where
  /-- Whether the class lists the bytes that it leaves out. -/
  negated : Bool
  /-- The listed bytes. -/
  ranges : List Text.ByteRange
deriving DecidableEq, Repr

/-- A piece of a pattern. -/
inductive Piece where
  /-- The character itself. -/
  | literal (c : Char)
  /-- Any one byte. -/
  | anyByte
  /-- Any bytes. -/
  | anyBytes
  /-- Any number of whole segments in front. -/
  | leadingSegments
  /-- Any text below a segment. -/
  | trailingSegments
  /-- A slash, or any number of whole segments between two slashes. -/
  | innerSegments
  /-- One byte of a class. -/
  | oneOf (bytes : ByteClass)
  /-- One of several branches. -/
  | choice (branches : List (List Piece))

/-- Whether a byte belongs to a class. -/
def ByteClass.contains (set : ByteClass) (b : UInt8) : Bool :=
  set.ranges.any (·.contains b) != set.negated

/-- The bytes of a character. -/
def bytesOf (c : Char) : List UInt8 :=
  String.utf8EncodeChar c

/-- The intervals of bytes that an interval of characters stands for. Only the last byte
of the lower end and the first byte of the upper end span an interval; the other bytes
stand for themselves. -/
def byteRanges (low high : Char) : List Text.ByteRange :=
  let alone (b : UInt8) : Text.ByteRange := ⟨b, b⟩
  if low = high then (bytesOf low).map alone
  else
    match (bytesOf low).reverse, bytesOf high with
    | last :: front, first :: rest =>
      front.reverse.map alone ++ ⟨last, first⟩ :: rest.map alone
    | _, _ => []

/-- What is left of a text from any of its positions on. -/
def tails : List UInt8 → List (List UInt8)
  | [] => [[]]
  | b :: bs => (b :: bs) :: tails bs

/-- Keeps one of several rests of the same length. The rests of one text are equal if
their lengths are. -/
def distinct (rests : List (List UInt8)) : List (List UInt8) :=
  rests.foldr
    (fun rest kept => if kept.any (·.length == rest.length) then kept else rest :: kept) []

/-- The rests behind one byte that passes a test. -/
def afterByte (test : UInt8 → Bool) (rests : List (List UInt8)) : List (List UInt8) :=
  rests.filterMap fun rest =>
    match rest with
    | b :: bs => if test b then some bs else none
    | [] => none

/-- The rests behind given bytes. -/
def afterBytes (bytes : List UInt8) (rests : List (List UInt8)) : List (List UInt8) :=
  rests.filterMap (bytes.isPrefixOf? ·)

/-- The rests behind any bytes. -/
def afterAny (rests : List (List UInt8)) : List (List UInt8) :=
  distinct (rests.flatMap tails)

/-- The rests behind a slash. -/
def afterSlash (rests : List (List UInt8)) : List (List UInt8) :=
  afterBytes (bytesOf '/') rests

mutual

/-- Whether a piece is an empty choice, which takes no part in matching. -/
def Piece.isVoid : Piece → Bool
  | .choice branches => allVoid branches
  | _ => false

/-- Whether all pieces of a branch are void. -/
def branchVoid : List Piece → Bool
  | [] => true
  | piece :: pieces => piece.isVoid && branchVoid pieces

/-- Whether all branches of a choice are void. -/
def allVoid : List (List Piece) → Bool
  | [] => true
  | branch :: branches => branchVoid branch && allVoid branches

end

mutual

/-- The rests behind a piece. -/
def Piece.after (rests : List (List UInt8)) : Piece → List (List UInt8)
  | .literal c => afterBytes (bytesOf c) rests
  | .anyByte => afterByte (fun _ => true) rests
  | .anyBytes => afterAny rests
  | .leadingSegments => distinct (rests ++ afterSlash rests ++ afterSlash (afterAny rests))
  | .trailingSegments => afterAny (afterSlash rests)
  | .innerSegments =>
    distinct (afterSlash rests ++ afterSlash (afterAny (afterSlash rests)))
  | .oneOf bytes => afterByte bytes.contains rests
  | .choice branches =>
    if allVoid branches then rests else distinct (afterChoice rests branches)

/-- The rests behind the pieces of a branch. -/
def afterBranch (rests : List (List UInt8)) : List Piece → List (List UInt8)
  | [] => rests
  | piece :: pieces => afterBranch (piece.after rests) pieces

/-- The rests behind any of the branches that are not void. -/
def afterChoice (rests : List (List UInt8)) : List (List Piece) → List (List UInt8)
  | [] => []
  | branch :: branches =>
    if branchVoid branch then afterChoice rests branches
    else afterBranch rests branch ++ afterChoice rests branches

end

end Glob

/-- A pattern for paths and names. -/
structure Glob where
  /-- The pieces in order. -/
  pieces : List Glob.Piece

/-- Whether a text is described by a pattern. Two stars alone describe every text. -/
def Glob.describes (glob : Glob) (text : String) : Bool :=
  match glob.pieces with
  | [.leadingSegments] => true
  | pieces => (Glob.afterBranch [text.toUTF8.toList] pieces).any List.isEmpty

end StylePrune
