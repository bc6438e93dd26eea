import Ecma.Number.Shortest

set_option autoImplicit false

/-!
The text of a number. Magnitudes from 10^-6 up to 10^21 are written with a point, all others with
an exponent that always carries its sign.
-/

namespace Ecma.Number

def zeros (count : Nat) : List Char :=
  List.replicate count '0'

/-- Lays out digits of which `point` stand before the decimal point. -/
def layout (digits : List Char) (point : Int) : List Char :=
  let count : Int := digits.length
  if count ≤ point ∧ point ≤ 21 then digits ++ zeros (point - count).toNat
  else if 0 < point ∧ point ≤ 21 then
    digits.take point.toNat ++ '.' :: digits.drop point.toNat
  else if -6 < point ∧ point ≤ 0 then '0' :: '.' :: (zeros (-point).toNat ++ digits)
  else
    let sign := if point - 1 < 0 then '-' else '+'
    let exponent := (toString (point - 1).natAbs).toList
    if digits.length = 1 then digits ++ 'e' :: sign :: exponent
    else digits.take 1 ++ '.' :: (digits.drop 1 ++ 'e' :: sign :: exponent)

/-- The text of a positive decimal. -/
def Decimal.text (d : Decimal) : List Char :=
  let digits := Nat.toDigits 10 d.digits
  layout digits (digits.length + d.exponent)

/-- The text of a number; both zeroes are written alike. -/
def text (x : Float) : String :=
  match Scaled.ofFloat? x with
  | none => if x.isNaN then "NaN" else if x > 0.0 then "Infinity" else "-Infinity"
  | some s =>
    if s.mantissa = 0 then "0"
    else
      let magnitude := (shortest s).text
      String.ofList (if s.negative then '-' :: magnitude else magnitude)

/-- A digit of any radix up to thirty-six. -/
def digitChar (digit : Nat) : Char :=
  if digit < 10 then Char.ofNat (48 + digit) else Char.ofNat (87 + digit)

/-- The digits before the point, by repeated division; no number has more than 1024 of them. -/
def wholeDigits (radix : Float) : Nat → Float → List Char → List Char
  | 0, _, digits => digits
  | fuel + 1, x, digits =>
    if x ≥ 1.0 then
      wholeDigits radix fuel (truncate (x / radix)) (digitChar (clamp 35 (remainder x radix)) :: digits)
    else digits

/-- The digits after the point, by repeated multiplication, at most so many. -/
def fractionDigits (radix : Float) : Nat → Float → List Char
  | 0, _ => []
  | count + 1, x =>
    if x > 0.0 then
      let scaled := x * radix
      let digit := truncate scaled
      digitChar (clamp 35 digit) :: fractionDigits radix count (scaled - digit)
    else []

/-- The text of a number in a radix from 2 to 36, with at most fifty-two digits after the point. -/
def radixText (x : Float) (radix : Nat) : String :=
  if !x.isFinite || x == 0.0 then text x
  else
    let magnitude := x.abs
    let whole := truncate magnitude
    let fraction := magnitude - whole
    let digits := wholeDigits (Float.ofNat radix) 1100 whole []
    let digits := if digits.isEmpty then ['0'] else digits
    let digits :=
      if fraction > 0.0 then digits ++ '.' :: fractionDigits (Float.ofNat radix) 52 fraction else digits
    String.ofList (if x < 0.0 then '-' :: digits else digits)

end Ecma.Number
