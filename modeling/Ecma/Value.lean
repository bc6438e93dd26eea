import Ecma.Number.Reading
import Ecma.Number.Text

set_option autoImplicit false

/-!
The values of the language. Objects, environments and local frames are known by the order in which
they were made. Everything here looks at a value alone, without the heap.
-/

namespace Ecma

open Ecma.Number

abbrev ObjectId := Nat
abbrev EnvironmentId := Nat
abbrev FrameId := Nat

inductive Value where
  | undefined
  | null
  | boolean (b : Bool)
  | number (x : Float)
  | string (s : String)
  | object (id : ObjectId)
deriving DecidableEq, Inhabited

namespace Value

def ofNat (n : Nat) : Value :=
  .number (Float.ofNat n)

def isObject : Value → Bool
  | .object _ => true
  | _ => false

/-- The object that a value is, if it is one. -/
def object? : Value → Option ObjectId
  | .object id => some id
  | _ => none

def isNullish : Value → Bool
  | .undefined => true
  | .null => true
  | _ => false

/-- The condition a value stands for. -/
def toBoolean : Value → Bool
  | .undefined => false
  | .null => false
  | .boolean b => b
  | .number x => !(x == 0.0 || x.isNaN)
  | .string s => !s.isEmpty
  | .object _ => true

/-- The number a primitive stands for; an object, which has to be converted first, is none. -/
def primitiveNumber : Value → Float
  | .undefined => nan
  | .null => 0.0
  | .boolean b => if b then 1.0 else 0.0
  | .number x => x
  | .string s => ofText s
  | .object _ => nan

/-- The text of a primitive. -/
def primitiveText : Value → String
  | .undefined => "undefined"
  | .null => "null"
  | .boolean b => if b then "true" else "false"
  | .number x => Number.text x
  | .string s => s
  | .object _ => "[object Object]"

end Value

/-- Numbers compared as values: no number is itself, and the zeroes differ. -/
def sameNumber (x y : Float) : Bool :=
  if x.isNaN && y.isNaN then true else x == y && isNegative x == isNegative y

/-- Whether nothing can tell two values apart. -/
def sameValue : Value → Value → Bool
  | .number x, .number y => sameNumber x y
  | a, b => a = b

/-- The operator `===`. -/
def strictlyEqual : Value → Value → Bool
  | .number x, .number y => x == y
  | a, b => a = b

end Ecma
