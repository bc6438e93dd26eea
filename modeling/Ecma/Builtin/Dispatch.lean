import Ecma.Builtin.Array
import Ecma.Builtin.Console
import Ecma.Builtin.Error
import Ecma.Builtin.Function
import Ecma.Builtin.Global
import Ecma.Builtin.Number
import Ecma.Builtin.Object
import Ecma.Builtin.String

set_option autoImplicit false

/-!
Calling and constructing with the functions that the engine provides.
-/

namespace Ecma

open Run

def Builtin.run (f : Builtin) (this : Value) (args : List Value) : Run Value :=
  match f with
  | .global f => f.run args
  | .object f => f.run this args
  | .function f => f.run this args
  | .array f => f.run this args
  | .string f => f.run this args
  | .number f => f.run this args
  | .boolean f => f.run this args
  | .error f => f.run this args
  | .console f => f.run args

/-- Constructs with a provided function. Those of primitives make a wrapper, all others do what a call
does. -/
def Builtin.construct (f : Builtin) (args : List Value) : Run Value := do
  match f with
  | .string .constructor => return .object (← newStringObject (← textArgument args))
  | .number .constructor =>
    let x ← numberArgument args
    return .object (← newObject (.number x) (some Intrinsic.numberPrototype))
  | .boolean .constructor =>
    let b := (argument args 0).toBoolean
    return .object (← newObject (.boolean b) (some Intrinsic.booleanPrototype))
  | f => f.run .undefined args

end Ecma
