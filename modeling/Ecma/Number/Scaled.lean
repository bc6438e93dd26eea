set_option autoImplicit false

/-!
Numbers taken apart. A finite number is a sign, a natural mantissa and a power of two, and every
exact computation on numbers (truncation, remainder, shortest digits, 32-bit words) starts there.
-/

namespace Ecma.Number

/-- The number that equals no number. -/
def nan : Float := 0.0 / 0.0

/-- Positive infinity. -/
def infinity : Float := 1.0 / 0.0

/-- The finite number (-1)^negative * mantissa * 2^exponent. -/
structure Scaled where
  negative : Bool
  mantissa : Nat
  exponent : Int
deriving DecidableEq, Repr

/-- The parts of a finite number; none for an infinity and for no number. -/
def Scaled.ofFloat? (x : Float) : Option Scaled :=
  match x.toModel.unpack with
  | .finite sign mantissa exponent _ => some ⟨sign == .negative, mantissa, exponent⟩
  | .zero sign => some ⟨sign == .negative, 0, 0⟩
  | _ => none

/-- The nearest number, ties to the even mantissa. -/
def Scaled.toFloat (s : Scaled) : Float :=
  let sign : Float.Model.UnpackedFloat.Sign := if s.negative then .negative else .positive
  if s.mantissa = 0 then Float.ofModel (Float.Model.pack (.zero sign))
  else Float.ofModel (Float.Model.pack
    (Float.Model.UnpackedFloat.round Float.Model.Format.binary64 sign s.mantissa s.exponent))

/-- The integer part of the magnitude. -/
def Scaled.whole (s : Scaled) : Nat :=
  if s.exponent < 0 then s.mantissa >>> (-s.exponent).toNat else s.mantissa <<< s.exponent.toNat

/-- The integer part, with the sign. -/
def Scaled.toInt (s : Scaled) : Int :=
  if s.negative then -(s.whole : Int) else s.whole

/-- True when nothing follows the point. -/
def Scaled.isWhole (s : Scaled) : Bool :=
  0 ≤ s.exponent || s.mantissa % Nat.pow 2 (-s.exponent).toNat == 0

/-- The number without its fraction; it keeps its sign, also as zero. -/
def truncate (x : Float) : Float :=
  match Scaled.ofFloat? x with
  | none => x
  | some s => if 0 ≤ s.exponent then x else Scaled.toFloat ⟨s.negative, s.whole, 0⟩

/-- Truncation in which no number counts as zero. -/
def toInteger (x : Float) : Float :=
  if x.isNaN then 0.0 else truncate x

/-- The integer part within a range of naturals: what lies outside goes to the nearer end. -/
def clamp (most : Nat) (x : Float) : Nat :=
  match Scaled.ofFloat? x with
  | some s => if s.negative then 0 else min s.whole most
  | none => if x > 0.0 then most else 0

/-- The remainder of the truncating division, exact and with the sign of the dividend. -/
def remainder (x y : Float) : Float :=
  match Scaled.ofFloat? x, Scaled.ofFloat? y with
  | some a, some b =>
    if b.mantissa = 0 then nan
    else
      let unit := min a.exponent b.exponent
      Scaled.toFloat ⟨a.negative, (a.mantissa <<< (a.exponent - unit).toNat) %
        (b.mantissa <<< (b.exponent - unit).toNat), unit⟩
  | some _, none => if y.isNaN then nan else x
  | none, _ => nan

/-- The sign bit, which tells the two zeroes apart. -/
def isNegative (x : Float) : Bool :=
  (Float.toBits x) >>> 63 == 1

end Ecma.Number
