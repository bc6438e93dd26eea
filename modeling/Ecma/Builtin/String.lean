import Ecma.Builtin.Argument

set_option autoImplicit false

/-!
The constructor `String` and the methods of strings. Positions and lengths count UTF-16 units.
-/

namespace Ecma

open Ecma.Text Run

/-- The text of the first argument; without an argument it is empty. -/
def textArgument : List Value → Run String
  | [] => return ""
  | v :: _ => toText v

/-- The receiver of a method as a text. -/
def receiverText (this : Value) (method : String) : Run String := do
  if this.isNullish then
    throwTypeError s!"String.prototype.{method} called on null or undefined"
  toText this

/-- The text that a string or a string object is. -/
def stringValue? (h : Heap) : Value → Option String
  | .string s => some s
  | .object id =>
    match h.kind id with
    | .string s => some s
    | _ => none
  | _ => none

def stringValue (this : Value) : Run Value := do
  match stringValue? (← heap) this with
  | some s => return .string s
  | none =>
    throwUnfit this fun type =>
      s!"String.prototype.valueOf requires that 'this' be a String, not {type}"

/-- A position within a text of a length. -/
def positionWithin (x : Float) (length : Nat) : Nat :=
  Number.clamp length x

def charAt (s : String) (position : Float) : String :=
  let length := unitLength s
  if position < 0.0 || position ≥ Float.ofNat length then ""
  else
    let position := positionWithin position length
    substring s position (position + 1)

def charCodeAt (s : String) (position : Float) : Float :=
  if position < 0.0 then Number.nan
  else
    match unitAt s (Number.clamp (Nat.pow 2 64 - 1) position) with
    | some unit => Float.ofNat unit
    | none => Number.nan

def indexOfText (s needle : String) (position : Float) : Float :=
  let text := units s
  let start := positionWithin position text.length
  match units needle with
  | [] => Float.ofNat start
  | needle =>
    match findUnits needle (text.drop start) start with
    | some index => Float.ofNat index
    | none => -1.0

def sliceText (s : String) (start stop : Value) : Run String := do
  let length := unitLength s
  let start := relativeIndex (← toInteger start) (Float.ofNat length)
  let stop ← rangeEnd stop (Float.ofNat length)
  return substring s (positionWithin start length) (positionWithin stop length)

/-- The part between two positions, whichever of them comes first. -/
def substringText (s : String) (start stop : Value) : Run String := do
  let length := unitLength s
  let start := positionWithin (← toInteger start) length
  let stop ← match stop with
    | .undefined => pure length
    | v => pure (positionWithin (← toInteger v) length)
  return substring s (min start stop) (max start stop)

def StringFunction.run (f : StringFunction) (this : Value) (args : List Value) : Run Value := do
  match f with
  | .constructor => return .string (← textArgument args)
  | .toString => stringValue this
  | .valueOf => stringValue this
  | .charAt =>
    let s ← receiverText this "charAt"
    return .string (Ecma.charAt s (← toInteger (argument args 0)))
  | .charCodeAt =>
    let s ← receiverText this "charCodeAt"
    return .number (Ecma.charCodeAt s (← toInteger (argument args 0)))
  | .indexOf =>
    let s ← receiverText this "indexOf"
    let needle ← toText (argument args 0)
    return .number (indexOfText s needle (← toInteger (argument args 1)))
  | .slice =>
    let s ← receiverText this "slice"
    return .string (← sliceText s (argument args 0) (argument args 1))
  | .substring =>
    let s ← receiverText this "substring"
    return .string (← substringText s (argument args 0) (argument args 1))

end Ecma
