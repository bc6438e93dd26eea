import Ecma.Builtin.Dispatch
import Ecma.Eval.Activation
import Ecma.Eval.Declaration

set_option autoImplicit false

/-!
The machine that runs enter code with. A machine of some depth enters code that runs on a machine of
one less, so that running is a function on all inputs.
-/

namespace Ecma

open Ecma.Program Run

/-- What the host does when its function, known by a word of the host's own, is called. -/
abbrev HostFunction := String → Value → List Value → Run Value

/-- Runs a function that is not code of a script, in a context that has no place in stack traces. -/
def inNativeContext (f : ObjectId) (body : Run Value) : Run Value :=
  inContext { function := some f } body

/-- Calls the function at the end of a chain of bound ones. -/
def callUnbound (host : HostFunction) (f : ObjectId) (this : Value) (args : List Value) :
    Run Value := do
  match (← heap).callable? f with
  | some (.script routine scope) => callScript routine f scope this args
  | some (.builtin b) => inNativeContext f (b.run this args)
  | some (.host name) =>
    match (← MonadState.get).hosts.find? name with
    | some word => inNativeContext f (host word this args)
    | none => return .undefined
  | _ => throwTypeError "object is not a function"

/-- Constructs with the function at the end of a chain of bound ones. -/
def constructUnbound (f : ObjectId) (args : List Value) : Run Value := do
  match (← heap).callable? f with
  | some (.script routine scope) => constructScript routine f scope args
  | some (.builtin b) =>
    if b.signature.isConstructor then inNativeContext f (b.construct args)
    else throwTypeError "function is not a constructor"
  | some (.host _) => throwTypeError "function is not a constructor"
  | _ => throwTypeError "object is not a constructor"

/-- Enters code in one of the ways there are. -/
def dispatch (host : HostFunction) (invocation : Invocation) : Run Value := do
  match invocation with
  | .call f this args =>
    let (f, this, args) := (← heap).unbind f this args
    callUnbound host f this args
  | .construct f args =>
    let (f, _, args) := (← heap).unbind f .undefined args
    constructUnbound f args
  | .code routine lexicalEnv variableEnv this deletable =>
    runCode routine lexicalEnv variableEnv this deletable

/-- The machine of a depth. -/
def machine (host : HostFunction) (lookup : Lookup) (rounds : Nat) : Nat → Machine
  | 0 => { rounds := rounds, lookup := lookup, enter := fun _ => throw .exhausted }
  | depth + 1 =>
    { rounds := rounds, lookup := lookup
      enter := fun invocation r => dispatch host invocation (machine host lookup rounds depth) r }

/-- A bound that no run comes near. -/
def boundless : Nat := Nat.pow 2 62

/-- Runs on a machine whose bounds no run comes near. -/
def Run.on {α : Type} (run : Run α) (host : HostFunction) (r : Realm)
    (lookup : Lookup := Lookup.resolved) : EStateM.Result Interrupt Realm α :=
  run (machine host lookup boundless boundless) r

end Ecma
