/-!
# Bytes of a text

A file holds bytes. Reading them strictly gives a text only if they are one; reading them
leniently always does, with the replacement character in place of each longest run of
bytes that begins a character and breaks off.
-/

namespace StylePrune.Text

/-- The bytes of a text. -/
def encode (text : List Char) : ByteArray :=
  (String.ofList text).toUTF8

/-- The text that bytes are, if they are one. -/
def decode? (bytes : ByteArray) : Option (List Char) :=
  (String.fromUTF8? bytes).map String.toList

/-- Reading what was written gives it back. -/
@[simp] theorem decode?_encode (text : List Char) : decode? (encode text) = some text := by
  have h : String.fromUTF8? (String.ofList text).toUTF8 = some (String.ofList text) := by
    rw [String.fromUTF8?, String.toUTF8_eq_toByteArray,
      dif_pos (String.ofList text).isValidUTF8]
    rfl
  simp only [decode?, encode, h, Option.map_some, String.toList_ofList]

/-- Bytes that are a text are its bytes. -/
theorem encode_of_decode? {bytes : ByteArray} {text : List Char}
    (h : decode? bytes = some text) :
    encode text = bytes := by
  obtain ⟨s, hs, rfl⟩ := Option.map_eq_some_iff.mp h
  rw [String.fromUTF8?] at hs
  split at hs
  · cases hs
    rw [encode, String.ofList_toList]
    rfl
  · cases hs

/-- An interval of bytes, with both its ends. -/
structure ByteRange where
  low : UInt8
  high : UInt8
deriving DecidableEq, Repr

/-- Whether a byte lies in an interval. -/
def ByteRange.contains (r : ByteRange) (b : UInt8) : Bool :=
  r.low ≤ b && b ≤ r.high

/-- What the bytes behind a first byte have to be: one interval for each of them, or
nothing when no character begins with that byte. The narrower intervals keep out
over-long forms, surrogates and numbers that are too large. -/
def tails? (lead : UInt8) : Option (List ByteRange) :=
  let any : ByteRange := ⟨0x80, 0xBF⟩
  if lead < 0x80 then some []
  else if lead < 0xC2 then none
  else if lead < 0xE0 then some [any]
  else if lead == 0xE0 then some [⟨0xA0, 0xBF⟩, any]
  else if lead == 0xED then some [⟨0x80, 0x9F⟩, any]
  else if lead < 0xF0 then some [any, any]
  else if lead == 0xF0 then some [⟨0x90, 0xBF⟩, any, any]
  else if lead < 0xF4 then some [any, any, any]
  else if lead == 0xF4 then some [⟨0x80, 0x8F⟩, any, any]
  else none

/-- The bytes at the front that lie one by one in the given intervals. -/
def fitting : List ByteRange → List UInt8 → List UInt8
  | r :: rs, b :: bs => if r.contains b then b :: fitting rs bs else []
  | _, _ => []

/-- The part of a character's number that its first byte holds, given how many bytes
follow. -/
def leadBits (lead : UInt8) : Nat → Nat
  | 0 => lead.toNat
  | 1 => lead.toNat % 0x20
  | 2 => lead.toNat % 0x10
  | _ => lead.toNat % 0x08

/-- The character with a first byte and the bytes behind it. -/
def charOfBytes (lead : UInt8) (tail : List UInt8) : Char :=
  Char.ofNat (tail.foldl (fun n b => n * 0x40 + b.toNat % 0x40) (leadBits lead tail.length))

/-- Stands for bytes that are no character. -/
def replacement : Char := '\uFFFD'

/-- The characters of a list of bytes, with replacements. -/
def lenient : List UInt8 → List Char
  | [] => []
  | lead :: bytes =>
    match tails? lead with
    | none => replacement :: lenient bytes
    | some ranges =>
      let tail := fitting ranges bytes
      let c := if tail.length = ranges.length then charOfBytes lead tail else replacement
      c :: lenient (bytes.drop tail.length)
termination_by bytes => bytes.length
decreasing_by
  all_goals (simp only [List.length_drop, List.length_cons]; omega)

/-- The text of bytes, with replacements where they are none. -/
def decodeLenient (bytes : ByteArray) : List Char :=
  (decode? bytes).getD (lenient bytes.toList)

/-- A text is read as it is. -/
@[simp] theorem decodeLenient_encode (text : List Char) :
    decodeLenient (encode text) = text := by
  simp [decodeLenient]

end StylePrune.Text
