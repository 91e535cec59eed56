import StylePrune.Text.Bytes
import StylePrune.Text.Quoted

/-!
# Texts in JSON

A text stands between double quotes. The quote, the backslash and the control characters
are written as escapes; every other character stands for itself. Reading also takes the
escapes that writing never produces, and when a text is broken it tells what is wrong and
how many bytes were still left to read.
-/

namespace StylePrune.Json

/-- What can be wrong with a JSON text. -/
inductive Complaint where
  | endInList
  | endInObject
  | endInText
  | endInValue
  | expectedColon
  | expectedCommaOrBracket
  | expectedCommaOrBrace
  | expectedWord
  | expectedValue
  | invalidEscape
  | invalidNumber
  | numberTooLarge
  | loneSurrogate
  | brokenEscape
  | controlCharacter
  | keyNotText
  | trailingComma
  | trailingText
  /-- A value of another kind than the one asked for. -/
  | wrongKind (found expected : String)
deriving DecidableEq, Repr

/-- The wording of a complaint. -/
def Complaint.message : Complaint → String
  | .endInList => "EOF while parsing a list"
  | .endInObject => "EOF while parsing an object"
  | .endInText => "EOF while parsing a string"
  | .endInValue => "EOF while parsing a value"
  | .expectedColon => "expected `:`"
  | .expectedCommaOrBracket => "expected `,` or `]`"
  | .expectedCommaOrBrace => "expected `,` or `" ++ '}'.toString ++ "`"
  | .expectedWord => "expected ident"
  | .expectedValue => "expected value"
  | .invalidEscape => "invalid escape"
  | .invalidNumber => "invalid number"
  | .numberTooLarge => "number out of range"
  | .loneSurrogate => "lone leading surrogate in hex escape"
  | .brokenEscape => "unexpected end of hex escape"
  | .controlCharacter => "control character (\\u0000-\\u001F) found while parsing a string"
  | .keyNotText => "key must be a string"
  | .trailingComma => "trailing comma"
  | .trailingText => "trailing characters"
  | .wrongKind found expected => "invalid type: " ++ found ++ ", expected " ++ expected

/-- A complaint, and how many bytes were left to read when it came up. -/
structure Fault where
  complaint : Complaint
  left : Nat
deriving DecidableEq, Repr

/-- A complaint about what has just been read, in front of `rest`. -/
def Fault.behind (complaint : Complaint) (rest : List Char) : Fault :=
  ⟨complaint, Text.size rest⟩

/-- A complaint about the next byte of `rest`. -/
def Fault.next (complaint : Complaint) (rest : List Char) : Fault :=
  ⟨complaint, Text.size rest - 1⟩

/-- How a character is written. -/
def escapeChar (c : Char) : List Char :=
  if c = '"' then ['\\', '"']
  else if c = '\\' then ['\\', '\\']
  else if c = '\x08' then ['\\', 'b']
  else if c = '\t' then ['\\', 't']
  else if c = '\n' then ['\\', 'n']
  else if c = '\x0c' then ['\\', 'f']
  else if c = '\r' then ['\\', 'r']
  else if c < ' ' then
    '\\' :: 'u' :: '0' :: '0' ::
      (if c.toNat < 16 then '0' :: Text.hexDigits c.toNat else Text.hexDigits c.toNat)
  else [c]

/-- How a text is written. -/
def writeText (text : List Char) : List Char :=
  '"' :: text.flatMap escapeChar ++ ['"']

/-- The value of a hexadecimal digit. -/
def hexValue? (c : Char) : Option Nat :=
  if '0' ≤ c ∧ c ≤ '9' then some (c.toNat - '0'.toNat)
  else if 'a' ≤ c ∧ c ≤ 'f' then some (c.toNat - 'a'.toNat + 10)
  else if 'A' ≤ c ∧ c ≤ 'F' then some (c.toNat - 'A'.toNat + 10)
  else none

/-- Reads four hexadecimal digits. -/
def readFourHex (text : List Char) : Except Fault (Nat × List Char) :=
  let refused : Fault :=
    if Text.size text < 4 then ⟨.endInText, 0⟩ else ⟨.invalidEscape, Text.size text - 4⟩
  match text with
  | a :: b :: c :: d :: rest =>
    match hexValue? a, hexValue? b, hexValue? c, hexValue? d with
    | some a, some b, some c, some d => .ok (((a * 16 + b) * 16 + c) * 16 + d, rest)
    | _, _, _, _ => .error refused
  | _ => .error refused

/-- Reads the second half of a character that takes two escapes, where `first` is the
first half. -/
def readLowHalf (first : Nat) (text : List Char) : Except Fault (Char × List Char) :=
  match text with
  | [] => .error ⟨.endInText, 0⟩
  | '\\' :: [] => .error ⟨.endInText, 0⟩
  | '\\' :: 'u' :: rest =>
    match readFourHex rest with
    | .error fault => .error fault
    | .ok (second, rest) =>
      if 0xDC00 ≤ second ∧ second ≤ 0xDFFF then
        .ok (Char.ofNat ((first - 0xD800) * 0x400 + (second - 0xDC00) + 0x10000), rest)
      else .error (.behind .loneSurrogate rest)
  | '\\' :: rest => .error (.next .brokenEscape rest)
  | rest => .error (.next .brokenEscape rest)

/-- Reads an escape behind its backslash. -/
def readEscape (text : List Char) : Except Fault (Char × List Char) :=
  match text with
  | [] => .error ⟨.endInText, 0⟩
  | '"' :: rest => .ok ('"', rest)
  | '\\' :: rest => .ok ('\\', rest)
  | '/' :: rest => .ok ('/', rest)
  | 'b' :: rest => .ok ('\x08', rest)
  | 'f' :: rest => .ok ('\x0c', rest)
  | 'n' :: rest => .ok ('\n', rest)
  | 'r' :: rest => .ok ('\r', rest)
  | 't' :: rest => .ok ('\t', rest)
  | 'u' :: rest =>
    match readFourHex rest with
    | .error fault => .error fault
    | .ok (n, rest) =>
      if 0xDC00 ≤ n ∧ n ≤ 0xDFFF then .error (.behind .loneSurrogate rest)
      else if 0xD800 ≤ n ∧ n ≤ 0xDBFF then readLowHalf n rest
      else .ok (Char.ofNat n, rest)
  | c :: rest => .error (.next .invalidEscape (c :: rest))

/-- Four digits are read off the front. -/
theorem length_le_of_readFourHex {text rest : List Char} {n : Nat}
    (h : readFourHex text = .ok (n, rest)) :
    rest.length ≤ text.length := by
  unfold readFourHex at h
  dsimp only at h
  split at h
  · split at h
    · simp only [Except.ok.injEq, Prod.mk.injEq] at h
      simp only [← h.2, List.length_cons]
      omega
    · simp at h
  · simp at h

/-- A second half is read off the front. -/
theorem length_le_of_readLowHalf {text rest : List Char} {first : Nat} {c : Char}
    (h : readLowHalf first text = .ok (c, rest)) : rest.length ≤ text.length := by
  unfold readLowHalf at h
  split at h <;> try simp at h
  rename_i tail
  split at h
  · simp at h
  · rename_i second after hfour
    have hle := length_le_of_readFourHex hfour
    split at h
    · simp only [Except.ok.injEq, Prod.mk.injEq] at h
      simp only [← h.2, List.length_cons]
      omega
    · simp at h

/-- An escape is read off the front. -/
theorem length_lt_of_readEscape {text rest : List Char} {c : Char}
    (h : readEscape text = .ok (c, rest)) :
    rest.length < text.length := by
  unfold readEscape at h
  split at h <;> try (simp only [Except.ok.injEq, Prod.mk.injEq, reduceCtorEq] at h) <;>
    try (simp [← h.2])
  rename_i tail
  split at h
  · simp at h
  · rename_i n after hfour
    have hle := length_le_of_readFourHex hfour
    simp only [List.length_cons]
    split at h
    · simp at h
    · split at h
      · have := length_le_of_readLowHalf h
        omega
      · simp only [Except.ok.injEq, Prod.mk.injEq] at h
        rw [← h.2]
        omega

/-- Reads a text behind its opening quote. -/
def readText (text : List Char) : Except Fault (List Char × List Char) :=
  match text with
  | [] => .error ⟨.endInText, 0⟩
  | '"' :: rest => .ok ([], rest)
  | '\\' :: rest =>
    match h : readEscape rest with
    | .error fault => .error fault
    | .ok (c, rest') =>
      have := length_lt_of_readEscape h
      match readText rest' with
      | .error fault => .error fault
      | .ok (cs, after) => .ok (c :: cs, after)
  | c :: rest =>
    if c < ' ' then .error (.behind .controlCharacter rest)
    else
      match readText rest with
      | .error fault => .error fault
      | .ok (cs, after) => .ok (c :: cs, after)
termination_by text.length

/-- A text is read off the front. -/
theorem length_lt_of_readText {text cs after : List Char}
    (h : readText text = .ok (cs, after)) :
    after.length < text.length := by
  fun_induction readText text generalizing cs after <;> simp_all
  all_goals omega

end StylePrune.Json
