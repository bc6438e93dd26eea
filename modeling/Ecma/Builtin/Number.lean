import Ecma.Builtin.Argument

set_option autoImplicit false

/-!
The constructors `Number` and `Boolean` and the methods of numbers and booleans.
-/

namespace Ecma

open Run

/-- The number of the first argument; without an argument it is zero. -/
def numberArgument : List Value → Run Float
  | [] => return 0.0
  | v :: _ => toNumber v

/-- The number that a number or a number object is. -/
def numberValue? (h : Heap) : Value → Option Float
  | .number x => some x
  | .object id =>
    match h.kind id with
    | .number x => some x
    | _ => none
  | _ => none

def receiverNumber (this : Value) (method : String) : Run Float := do
  match numberValue? (← heap) this with
  | some x => return x
  | none =>
    throwUnfit this fun type =>
      s!"Number.prototype.{method} requires that 'this' be a Number, not {type}"

/-- The text of a number in the radix that is asked for. -/
def numberText (x : Float) (radix : Value) : Run String := do
  let radix ← match radix with
    | .undefined => pure 10.0
    | v => toInteger v
  if !(2.0 ≤ radix && radix ≤ 36.0) then
    Run.throwError .rangeError "toString() radix must be between 2 and 36"
  if radix == 10.0 then return Number.text x
  return Number.radixText x (Number.clamp 36 radix)

def NumberFunction.run (f : NumberFunction) (this : Value) (args : List Value) : Run Value := do
  match f with
  | .constructor => return .number (← numberArgument args)
  | .toString =>
    let x ← receiverNumber this "toString"
    return .string (← numberText x (argument args 0))
  | .valueOf => return .number (← receiverNumber this "valueOf")

/-- The boolean that a boolean or a boolean object is. -/
def booleanValue? (h : Heap) : Value → Option Bool
  | .boolean b => some b
  | .object id =>
    match h.kind id with
    | .boolean b => some b
    | _ => none
  | _ => none

def receiverBoolean (this : Value) (method : String) : Run Bool := do
  match booleanValue? (← heap) this with
  | some b => return b
  | none =>
    throwUnfit this fun type =>
      s!"Boolean.prototype.{method} requires that 'this' be a Boolean, not {type}"

def BooleanFunction.run (f : BooleanFunction) (this : Value) (args : List Value) :
    Run Value := do
  match f with
  | .constructor => return .boolean (argument args 0).toBoolean
  | .toString =>
    let b ← receiverBoolean this "toString"
    return .string (Value.boolean b).primitiveText
  | .valueOf => return .boolean (← receiverBoolean this "valueOf")

end Ecma
