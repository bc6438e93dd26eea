import Ecma.Builtin.Argument
import Ecma.Eval.Code
import Ecma.Eval.Function

set_option autoImplicit false

/-!
The functions of the global object. Some read and change the limits of the realm and the handlers that
scripts leave for the host.
-/

namespace Ecma

open Run

/-- The limit a number asks for, without its fraction: what is not positive and finite asks for
none. -/
def limitOf (x : Float) : Option Nat :=
  if x.isFinite && x > 0.0 then some (Number.clamp (Nat.pow 2 64 - 1) x) else none

def modifyConfig (f : Config → Config) : Run Unit :=
  modify fun r => { r with config := f r.config }

/-- Sets the number of lines that errors capture, also where scripts see it. -/
def setTraceLimit (x : Float) : Run Unit := do
  if x.isFinite && x ≥ 0.0 then
    modifyConfig fun c => { c with traceLimit := Number.clamp (Nat.pow 2 64 - 1) x }
    modifyHeap fun h =>
      h.store Intrinsic.errorConstructor (.name "stackTraceLimit")
        (.free (.number (Number.truncate x)))

def changeLimit (name : String) (v : Value) : Run Unit := do
  match name with
  | "stepsLimit" =>
    let limit := limitOf (← toNumber v)
    modifyConfig fun c => { c with stepsLimit := limit }
    modify fun r => { r with steps := 0 }
  | "stackDepthLimit" =>
    match limitOf (← toNumber v) with
    | some limit => modifyConfig fun c => { c with depthLimit := limit }
    | none => return ()
  | "stackTraceLimit" => setTraceLimit (← toNumber v)
  | _ => return ()

def limitValue (r : Realm) (name : String) : Value :=
  match name with
  | "stepsLimit" => (r.config.stepsLimit.map Value.ofNat).getD .undefined
  | "stackDepthLimit" => .ofNat r.config.depthLimit
  | "stackTraceLimit" => .ofNat r.traceLimit
  | _ => .undefined

def setHandler (name : String) (handler : Value) : Run Unit := do
  if !(← heap).isCallable handler then
    throwTypeError s!"System handler '{name}' must be a function"
  modify fun r => { r with handlers := r.handlers.put name handler }

def GlobalFunction.run (f : GlobalFunction) (args : List Value) : Run Value := do
  let first := argument args 0
  let second := argument args 1
  match f with
  | .eval => indirectEval args
  | .isNaN => return .boolean (← toNumber first).isNaN
  | .isFinite => return .boolean (← toNumber first).isFinite
  | .parseInt =>
    let text ← toText first
    let radix ← toInt32 second
    return .number (Number.readInteger text radix)
  | .parseFloat => return .number (Number.readLeading (← toText first))
  | .setSystemProperty =>
    changeLimit (← toText first) second
    return .undefined
  | .getSystemProperty =>
    let name ← toText first
    return limitValue (← MonadState.get) name
  | .setSystemHandler =>
    setHandler (← toText first) second
    return .undefined
  | .getSystemHandler =>
    let name ← toText first
    return ((← MonadState.get).handlers.find? name).getD .undefined
  | .removeSystemHandler =>
    let name ← toText first
    let present := (← MonadState.get).handlers.has name
    modify fun r => { r with handlers := r.handlers.erase name }
    return .boolean present
  | .customFunction => return .object (← newHostFunction (← toText first))

end Ecma
