import Ecma.Number.Scaled
import Ecma.Text.Blank

set_option autoImplicit false

/-!
Reading numbers. A decimal literal is an optional sign, digits with an optional fraction, and an
optional exponent; its value is the nearest number. Digits of other radixes are accumulated one by
one, rounding after each.
-/

namespace Ecma.Number

open Ecma.Text

/-- The value of a digit in a radix up to thirty-six. -/
def digitIn (radix : Nat) (c : Char) : Option Nat :=
  let value :=
    if '0' ≤ c ∧ c ≤ '9' then c.toNat - 48
    else if 'a' ≤ c ∧ c ≤ 'z' then c.toNat - 87
    else if 'A' ≤ c ∧ c ≤ 'Z' then c.toNat - 55
    else radix
  if value < radix then some value else none

/-- The natural number that decimal digits spell. -/
def digitsValue (digits : List Char) : Nat :=
  digits.foldl (fun value c => value * 10 + (c.toNat - 48)) 0

/-- The number digits * 10^exponent, rounded to nearest. -/
def ofDecimal (digits : Nat) (exponent : Int) : Float :=
  if exponent < 0 then Float.ofScientific digits true (-exponent).toNat
  else Float.ofScientific digits false exponent.toNat

/-- An optional sign and what follows it. -/
def splitSign : List Char → Bool × List Char
  | '-' :: rest => (true, rest)
  | '+' :: rest => (false, rest)
  | cs => (false, cs)

/-- The digits after a point, if there is a point, and what follows them. -/
def splitFraction : List Char → List Char × List Char
  | '.' :: rest => (rest.takeWhile Char.isDigit, rest.dropWhile Char.isDigit)
  | cs => ([], cs)

/-- The exponent that fills the rest of a literal; zero when nothing is left. -/
def exponentOf? : List Char → Option Int
  | [] => some 0
  | c :: rest =>
    if c = 'e' ∨ c = 'E' then
      let (negative, digits) := splitSign rest
      if digits.isEmpty || !digits.all Char.isDigit then none
      else
        let value : Int := digitsValue digits
        some (if negative then -value else value)
    else none

/-- Reads a text that is a decimal literal from end to end. -/
def readDecimal? (cs : List Char) : Option Float :=
  let (negative, rest) := splitSign cs
  let whole := rest.takeWhile Char.isDigit
  let (fraction, tail) := splitFraction (rest.dropWhile Char.isDigit)
  if whole.isEmpty && fraction.isEmpty then none
  else
    (exponentOf? tail).map fun exponent =>
      let value := ofDecimal (digitsValue (whole ++ fraction)) (exponent - fraction.length)
      if negative then -value else value

/-- The value of digits in a radix, accumulated from the left. -/
def accumulate (radix : Nat) (digits : List Nat) : Float :=
  digits.foldl (fun value digit => value * Float.ofNat radix + Float.ofNat digit) 0.0

/-- Reads a text of hexadecimal digits; anything else makes it no number. -/
def readHex (cs : List Char) : Float :=
  match cs.mapM (digitIn 16) with
  | some digits => accumulate 16 digits
  | none => nan

/-- Characters that a decimal literal is made of. -/
def isDecimalChar (c : Char) : Bool :=
  c.isDigit || c == '.' || c == 'e' || c == 'E' || c == '+' || c == '-'

/-- The number a trimmed text stands for. -/
def readTrimmed : List Char → Float
  | [] => 0.0
  | '0' :: 'x' :: c :: rest => readHex (c :: rest)
  | '0' :: 'X' :: c :: rest => readHex (c :: rest)
  | cs =>
    if cs = "Infinity".toList ∨ cs = "+Infinity".toList then infinity
    else if cs = "-Infinity".toList then -infinity
    else if cs.all isDecimalChar && cs.any Char.isDigit then (readDecimal? cs).getD nan
    else nan

/-- The number a text stands for; blanks around it do not matter. -/
def ofText (s : String) : Float :=
  readTrimmed (trim s.toList)

/-- The length of the digits of a mantissa with at least one digit, and zero if there are none. -/
def mantissaLength (cs : List Char) : Nat :=
  let whole := (cs.takeWhile Char.isDigit).length
  match cs.drop whole with
  | '.' :: rest =>
    let fraction := (rest.takeWhile Char.isDigit).length
    if 0 < whole ∨ 0 < fraction then whole + 1 + fraction else 0
  | _ => whole

def isSign (c : Char) : Bool :=
  c == '+' || c == '-'

/-- The length of an optional sign. -/
def signLength : List Char → Nat
  | [] => 0
  | c :: _ => if isSign c then 1 else 0

/-- The length of an exponent with at least one digit, and zero if there is none. -/
def exponentLength : List Char → Nat
  | [] => 0
  | c :: rest =>
    if c = 'e' ∨ c = 'E' then
      let sign := signLength rest
      let digits := ((rest.drop sign).takeWhile Char.isDigit).length
      if 0 < digits then 1 + sign + digits else 0
    else 0

/-- The length of the longest prefix that is a decimal literal or a signed infinity. -/
def literalLength (cs : List Char) : Nat :=
  let sign := signLength cs
  let rest := cs.drop sign
  if "Infinity".toList.isPrefixOf rest then sign + 8
  else
    let mantissa := mantissaLength rest
    if mantissa = 0 then 0 else sign + mantissa + exponentLength (rest.drop mantissa)

/-- The decimal literal that a text begins with. -/
def leadingLiteral (cs : List Char) : List Char :=
  cs.take (literalLength cs)

/-- The value of a literal that has lost its sign; it is no number when nothing is left. -/
def readUnsigned (cs : List Char) : Float :=
  if cs.isEmpty then nan
  else if cs = "Infinity".toList then infinity
  else (readDecimal? cs).getD nan

/-- Reads the longest literal at the start of a text, after blanks. -/
def readLeading (s : String) : Float :=
  let literal := leadingLiteral (trimStart s.toList)
  let value := readUnsigned (literal.dropWhile isSign)
  if literal.head? = some '-' then -value else value

/-- The digits of a radix at the start of a text. -/
def leadingDigits (radix : Nat) : List Char → List Nat
  | [] => []
  | c :: rest =>
    match digitIn radix c with
    | some digit => digit :: leadingDigits radix rest
    | none => []

/-- Takes off the mark of a hexadecimal number. -/
def stripHexMark : List Char → Option (List Char)
  | '0' :: 'x' :: rest => some rest
  | '0' :: 'X' :: rest => some rest
  | _ => none

/-- Reads the integer at the start of a text in a radix; zero stands for ten, or sixteen when the
text is marked as hexadecimal. -/
def readInteger (s : String) (radix : Int) : Float :=
  if radix ≠ 0 ∧ (radix < 2 ∨ 36 < radix) then nan
  else
    let (negative, cs) := splitSign (trimStart s.toList)
    let (radix, cs) :=
      match (if radix = 0 ∨ radix = 16 then stripHexMark cs else none) with
      | some rest => (16, rest)
      | none => (if radix = 0 then 10 else radix.toNat, cs)
    match leadingDigits radix cs with
    | [] => nan
    | digits => (if negative then -1.0 else 1.0) * accumulate radix digits

/-- The value of a numeric literal of the grammar and whether it has the legacy octal form. -/
def ofLiteral (cs : List Char) : Float × Bool :=
  match stripHexMark cs with
  | some digits => (accumulate 16 (digits.map fun c => (digitIn 16 c).getD 0), false)
  | none =>
    match cs with
    | '0' :: c :: rest =>
      if (c :: rest).all fun d => '0' ≤ d ∧ d ≤ '7' then
        (accumulate 8 ((c :: rest).map fun d => d.toNat - 48), true)
      else ((readDecimal? cs).getD nan, false)
    | _ => ((readDecimal? cs).getD nan, false)

end Ecma.Number
