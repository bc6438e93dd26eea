import Ecma.Number.Scaled

set_option autoImplicit false

/-!
Thirty-two bit words. A number becomes a word by dropping its fraction and reducing modulo 2^32;
the bitwise operators and shifts work on words and give the word back as a number.
-/

namespace Ecma.Number

/-- The count of words. -/
def wordCount : Nat := Nat.pow 2 32

/-- The unsigned word of a number: its integer part modulo 2^32, and zero for what is not finite. -/
def toUint32 (x : Float) : Nat :=
  match Scaled.ofFloat? x with
  | none => 0
  | some s => (s.toInt % (wordCount : Int)).toNat

/-- A word read as a signed integer. -/
def signed (word : Nat) : Int :=
  if word < Nat.pow 2 31 then word else (word : Int) - wordCount

/-- The signed word of a number. -/
def toInt32 (x : Float) : Int :=
  signed (toUint32 x)

def bitwiseNot (x : Float) : Float :=
  Float.ofInt (-(toInt32 x) - 1)

def bitwiseAnd (x y : Float) : Float :=
  Float.ofInt (signed (toUint32 x &&& toUint32 y))

def bitwiseOr (x y : Float) : Float :=
  Float.ofInt (signed (toUint32 x ||| toUint32 y))

def bitwiseXor (x y : Float) : Float :=
  Float.ofInt (signed (toUint32 x ^^^ toUint32 y))

/-- Only the low five bits of the right operand count. -/
def shiftCount (y : Float) : Nat :=
  toUint32 y % 32

def shiftLeft (x y : Float) : Float :=
  Float.ofInt (signed (toUint32 x * Nat.pow 2 (shiftCount y) % wordCount))

/-- Shifts the signed word and rounds down. -/
def shiftRight (x y : Float) : Float :=
  Float.ofInt (toInt32 x / (Nat.pow 2 (shiftCount y) : Nat))

/-- Shifts the unsigned word. -/
def shiftRightUnsigned (x y : Float) : Float :=
  Float.ofNat (toUint32 x / Nat.pow 2 (shiftCount y))

end Ecma.Number
