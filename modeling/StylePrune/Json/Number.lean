import StylePrune.Decimal.Shortest
import StylePrune.Json.Text

/-!
# Numbers in JSON

No value that is read here is a number, so a number is read only to say which one stood
in the way: whole numbers of sixty-four bits as they are, all others as doubles.
-/

namespace StylePrune.Json

/-- The greatest whole number that is kept as such. -/
def maxWhole : Nat := Nat.pow 2 64 - 1

/-- The digits at the front of a text. -/
def digitsOf (text : List Char) : List Char :=
  text.takeWhile Char.isDigit

/-- The number that a list of digits stands for. -/
def numberOf (digits : List Char) : Nat :=
  digits.foldl (fun n d => n * 10 + (d.toNat - '0'.toNat)) 0

/-- The leading digits of a number that fit into sixty-four bits, and how many digits are
left out. -/
def significand (digits : List Char) : Nat × Nat :=
  digits.foldl
    (fun (n, dropped) d =>
      let next := n * 10 + (d.toNat - '0'.toNat)
      if dropped = 0 ∧ next ≤ maxWhole then (next, 0) else (n, dropped + 1))
    (0, 0)

/-- The double nearest to a whole number, times a power of ten; nothing when it is too
large. -/
def scale? (number : Nat) (exponent : Int) : Option Float :=
  let f := Float.ofNat number
  let huge : Nat := 308
  if 0 ≤ exponent then
    if f == 0.0 then some f
    else if huge < exponent then none
    else
      let g := f * Float.ofScientific 1 false exponent.toNat
      if g.isInf then none else some g
  else
    let steps := (-exponent).toNat / (huge + 1)
    let rest := (-exponent).toNat - steps * huge
    let f :=
      (List.replicate (min steps 3) (Float.ofScientific 1 false huge)).foldl (· / ·) f
    some (f / Float.ofScientific 1 false (min rest huge))

/-- The display of a double. -/
def showFloat (negative : Bool) (f : Float) : String :=
  "floating point `" ++ Decimal.ofFloat (if negative then -f else f) ++ "`"

/-- The double with the given digits before and behind the point and the given exponent. -/
def readDouble (negative : Bool) (whole fraction : List Char) (exponent : Int)
    (rest : List Char) : Except Fault (String × List Char) :=
  let (number, dropped) := significand (whole ++ fraction)
  match scale? number (exponent - fraction.length + dropped) with
  | some f => .ok (showFloat negative f, rest)
  | none => .error (.behind .numberTooLarge rest)

/-- Reads an exponent behind its letter. -/
def readExponent (text : List Char) : Except Fault (Int × List Char) :=
  let (negative, text) :=
    match text with
    | '+' :: rest => (false, rest)
    | '-' :: rest => (true, rest)
    | rest => (false, rest)
  match digitsOf text, text with
  | [], [] => .error ⟨.endInValue, 0⟩
  | [], rest => .error (.next .invalidNumber rest)
  | digits, rest =>
    let n : Int := numberOf digits
    .ok (if negative then -n else n, rest.drop digits.length)

/-- Reads the rest of a double behind the digits in front of its point. -/
def readTail (negative : Bool) (whole text : List Char) :
    Except Fault (String × List Char) := do
  let (fraction, text) ←
    match text with
    | '.' :: rest =>
      match digitsOf rest with
      | [] =>
        if rest = [] then .error ⟨.endInValue, 0⟩ else .error (.next .invalidNumber rest)
      | digits => .ok (digits, rest.drop digits.length)
    | rest => .ok ([], rest)
  match text with
  | 'e' :: rest | 'E' :: rest =>
    let (exponent, rest) ← readExponent rest
    readDouble negative whole fraction exponent rest
  | rest => readDouble negative whole fraction 0 rest

/-- Reads a number behind its sign and tells how it is displayed. -/
def readNumber (negative : Bool) (text : List Char) : Except Fault (String × List Char) :=
  let digits := digitsOf text
  let rest := text.drop digits.length
  match digits, text with
  | [], [] => .error ⟨.endInValue, 0⟩
  | [], text => .error (.next .invalidNumber text)
  | '0' :: more :: digits, _ => .error (.next .invalidNumber (more :: digits ++ rest))
  | digits, _ =>
    let isDouble := rest.head? = some '.' ∨ rest.head? = some 'e' ∨ rest.head? = some 'E'
    let number := numberOf digits
    if isDouble ∨ maxWhole < number then readTail negative digits rest
    else if !negative then .ok ("integer `" ++ toString number ++ "`", rest)
    else if number = 0 ∨ Nat.pow 2 63 < number then
      .ok (showFloat true (Float.ofNat number), rest)
    else .ok ("integer `-" ++ toString number ++ "`", rest)

end StylePrune.Json
