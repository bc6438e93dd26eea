import Ecma.Number.Scaled

set_option autoImplicit false

/-!
The fewest decimal digits that read back as a given number. The reals that round to a number form
an interval around it; the coarsest decimal grid with a point in that interval is taken, and on it
the point nearer to the number, the larger of two that are equally near.
-/

namespace Ecma.Number

/-- The digits d of a positive number that is written d * 10^exponent. -/
structure Decimal where
  digits : Nat
  exponent : Int
deriving DecidableEq, Repr

/-- The fraction numerator / denominator * 10^exponent is brought to a fraction of naturals. -/
def tenfold (numerator denominator : Nat) (exponent : Int) : Nat × Nat :=
  if 0 ≤ exponent then (numerator * Nat.pow 10 exponent.toNat, denominator)
  else (numerator, denominator * Nat.pow 10 (-exponent).toNat)

/-- A mantissa and a power of two as a fraction of naturals. -/
def fraction (mantissa : Nat) (exponent : Int) : Nat × Nat :=
  if 0 ≤ exponent then (mantissa <<< exponent.toNat, 1)
  else (mantissa, 1 <<< (-exponent).toNat)

/-- The distances to both ends of the rounding interval, in quarters of the last binary place. The
number below a power of two is nearer than the one above it. -/
def reach (s : Scaled) : Nat × Nat :=
  if s.mantissa = Nat.pow 2 52 ∧ -1074 < s.exponent then (1, 2) else (2, 2)

/-- A decimal exponent that is the right one or the one below it. -/
def exponentGuess (s : Scaled) : Int :=
  ((s.mantissa.log2 : Int) + s.exponent) * 30103 / 100000

/-- The exponent e of the leading digit: 10^e ≤ value < 10^(e+1). -/
def leadingExponent (s : Scaled) : Int :=
  let guess := exponentGuess s
  let (numerator, denominator) := fraction s.mantissa s.exponent
  let (n, d) := tenfold numerator denominator (-(guess + 1))
  if d ≤ n then guess + 1 else guess

/-- The nearer of the two neighbours of the number on the grid 10^exponent that rounds back to it. -/
def nearestOnGrid? (s : Scaled) (exponent : Int) : Option Nat :=
  let (below, above) := reach s
  let quarter := s.exponent - 2
  let cut := fun (quarters : Nat) =>
    let (n, d) := fraction quarters quarter
    tenfold n d (-exponent)
  let (n, d) := cut (4 * s.mantissa)
  let (low, lowUnit) := cut (4 * s.mantissa - below)
  let (high, highUnit) := cut (4 * s.mantissa + above)
  let floor := n / d
  let even := s.mantissa % 2 == 0
  let inLow := low < floor * lowUnit || (even && low == floor * lowUnit)
  let inHigh := (floor + 1) * highUnit < high || (even && (floor + 1) * highUnit == high)
  let nearHigh := d ≤ 2 * (n - floor * d)
  if inLow && inHigh then some (if nearHigh then floor + 1 else floor)
  else if inLow then some floor
  else if inHigh then some (floor + 1)
  else none

/-- Drops trailing zeros, at most so many. -/
def stripZeros : Nat → Decimal → Decimal
  | 0, decimal => decimal
  | fuel + 1, ⟨digits, exponent⟩ =>
    if digits ≠ 0 ∧ digits % 10 = 0 then stripZeros fuel ⟨digits / 10, exponent + 1⟩
    else ⟨digits, exponent⟩

/-- The first grid with a hit, from the given count of digits on. -/
def firstHit (s : Scaled) (leading : Int) : Nat → Nat → Decimal
  | 0, count => ⟨0, leading - count + 1⟩
  | fuel + 1, count =>
    match nearestOnGrid? s (leading - count + 1) with
    | some digits => ⟨digits, leading - count + 1⟩
    | none => firstHit s leading fuel (count + 1)

/-- The shortest decimal that reads back as the magnitude; seventeen digits always suffice. -/
def shortest (s : Scaled) : Decimal :=
  stripZeros 20 (firstHit s (leadingExponent s) 17 1)

end Ecma.Number
