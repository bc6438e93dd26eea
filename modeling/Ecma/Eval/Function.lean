import Ecma.Operation.Property

set_option autoImplicit false

/-!
Making function objects.
-/

namespace Ecma

open Ecma.Program Run

/-- The properties that give nothing away about a strict function. -/
def poisoned (names : List String) : List (String × Descriptor) :=
  names.map fun name =>
    (name, .accessor (some Intrinsic.throwTypeError) (some Intrinsic.throwTypeError) false false)

/-- Makes a function of a script, with a prototype object for what `new` makes of it. -/
def newFunction (routine : Routine) (scope : EnvironmentId) : Run ObjectId := do
  let header := routine.header
  let poison := if header.strict then poisoned ["caller", "arguments"] else []
  let f ← newObject (.function (.script routine scope)) (some Intrinsic.functionPrototype)
    (.ofNames [("length", .final (.ofNat header.params.length))])
  let prototype ← newObject .ordinary (some Intrinsic.objectPrototype)
    (.ofNames [("constructor", .hidden (.object f))])
  let more := ("prototype", Descriptor.lasting (.object prototype)) :: poison
  modifyHeap fun h => h.modifyProperties f fun t => { t with names := t.names ++ more }
  return f

/-- Makes a function that the engine provides. -/
def newBuiltin (f : Builtin) : Object :=
  { kind := .function (.builtin f), prototype := some Intrinsic.functionPrototype
    properties := .ofNames [("length", .final (.ofNat f.signature.length))] }

/-- The length of a bound function: what is left of the length of its target. -/
def boundLength (targetLength : Value) (args : List Value) : Float :=
  let length := match targetLength with
    | .number x => x
    | _ => 0.0
  let rest := length - Float.ofNat args.length
  if rest > 0.0 then rest else 0.0

/-- Makes a function with a fixed receiver and fixed first arguments. -/
def newBoundFunction (target : ObjectId) (receiver : Value) (args : List Value) :
    Run ObjectId := do
  let length ← get target .length
  newObject (.function (.bound target receiver args)) (some Intrinsic.functionPrototype)
    (.ofNames (("length", .final (.number (boundLength length args))) ::
      poisoned ["caller", "arguments"]))

/-- Makes a function that calls what the host has registered under a name. -/
def newHostFunction (name : String) : Run ObjectId :=
  newObject (.function (.host name)) (some Intrinsic.functionPrototype)
    (.ofNames [("length", .final (.number 0.0))])

end Ecma
