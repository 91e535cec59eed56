/-!
# Shortest decimals

Every finite double is the nearest one to an interval of numbers around it. Of the
decimals in that interval, the one with the fewest digits is taken, and of two with as
few digits the nearer one.
-/

namespace StylePrune

/-- A positive decimal: `digits` times ten to the power `exponent`. -/
structure Decimal where
  digits : Nat
  exponent : Int
deriving DecidableEq, Repr

namespace Decimal

/-- A positive rational with the ends of the interval that belongs to it, over a common
denominator. -/
structure Interval where
  low : Nat
  value : Nat
  high : Nat
  denominator : Nat
  /-- Whether the ends belong to the interval. -/
  closed : Bool
deriving DecidableEq, Repr

namespace Interval

/-- The interval of numbers whose nearest double is the one with the given exponent and
fraction fields. -/
def ofFields (exponent fraction : Nat) : Interval :=
  let mantissa := if exponent = 0 then fraction else Nat.pow 2 52 + fraction
  let power : Int := (if exponent = 0 then 1 else exponent) - 1077
  let below := if fraction = 0 ∧ 1 < exponent then 1 else 2
  let scale := Nat.pow 2 power.toNat
  { low := (4 * mantissa - below) * scale
    value := 4 * mantissa * scale
    high := (4 * mantissa + 2) * scale
    denominator := Nat.pow 2 (-power).toNat
    closed := mantissa % 2 = 0 }

/-- Multiplies an interval by a power of ten. -/
def shift (r : Interval) (exponent : Int) : Interval :=
  let up := Nat.pow 10 exponent.toNat
  { r with
    low := r.low * up
    value := r.value * up
    high := r.high * up
    denominator := r.denominator * Nat.pow 10 (-exponent).toNat }

/-- Whether a whole number lies in an interval. -/
def contains (r : Interval) (n : Nat) : Bool :=
  let n := n * r.denominator
  if r.closed then r.low ≤ n && n ≤ r.high else r.low < n && n < r.high

/-- Of the two whole numbers next to the value, the nearer one that lies in the interval. -/
def whole? (r : Interval) : Option Nat :=
  let below := r.value / r.denominator
  let nearBelow := 2 * r.value ≤ (2 * below + 1) * r.denominator
  match r.contains below, r.contains (below + 1) with
  | true, true => some (if nearBelow then below else below + 1)
  | true, false => some below
  | false, true => some (below + 1)
  | false, false => none

/-- The power of ten of the leading digit of the value. -/
def leading (r : Interval) : Int :=
  let whole := r.value / r.denominator
  if 0 < whole then ((Nat.toDigits 10 whole).length : Int) - 1
  else
    match (List.range 400).find? fun n => r.denominator ≤ r.value * Nat.pow 10 n with
    | some n => -n
    | none => 0

/-- The decimal in the interval with the fewest digits. -/
def shortest (r : Interval) : Decimal :=
  let ofCount? (count : Nat) : Option Decimal :=
    let exponent := r.leading - count
    ((r.shift (-exponent)).whole?).map fun digits => ⟨digits, exponent⟩
  ((List.range 17).findSome? ofCount?).getD ⟨0, 0⟩

end Interval

/-- Moves trailing zeros from the digits to the exponent. -/
def trimZeros : Nat → Decimal → Decimal
  | 0, d => d
  | fuel + 1, d =>
    if d.digits % 10 = 0 then trimZeros fuel ⟨d.digits / 10, d.exponent + 1⟩ else d

/-- A decimal in plain notation when its point stands among its first sixteen places or
its first digit among the first five behind the point, and in scientific notation
otherwise. -/
def write (d : Decimal) : String :=
  let d := trimZeros 20 d
  let digits := Nat.toDigits 10 d.digits
  let point := d.exponent + digits.length
  if 0 ≤ d.exponent ∧ point ≤ 16 then
    String.ofList (digits ++ List.replicate d.exponent.toNat '0') ++ ".0"
  else if 0 < point ∧ point ≤ 16 then
    String.ofList (digits.take point.toNat ++ '.' :: digits.drop point.toNat)
  else if -5 < point ∧ point ≤ 0 then
    "0." ++ String.ofList (List.replicate (-point).toNat '0' ++ digits)
  else
    let fraction := if digits.length = 1 then [] else '.' :: digits.drop 1
    String.ofList (digits.take 1 ++ fraction) ++ "e" ++ toString (point - 1)

/-- The text of a finite double. -/
def ofFloat (f : Float) : String :=
  let bits := f.toBits.toNat
  let exponent := bits / Nat.pow 2 52 % Nat.pow 2 11
  let fraction := bits % Nat.pow 2 52
  let sign := if Nat.pow 2 63 ≤ bits then "-" else ""
  if exponent = 0 ∧ fraction = 0 then sign ++ "0.0"
  else sign ++ write (Interval.ofFields exponent fraction).shortest

end Decimal

end StylePrune
