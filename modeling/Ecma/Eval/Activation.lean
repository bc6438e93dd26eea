import Ecma.Eval.Statement

set_option autoImplicit false

/-!
Entering a script function. Its parameters, the functions it declares, its arguments object and its
variables are bound in this order, each in a slot of the local frame or in the environment of the
call.
-/

namespace Ecma

open Ecma.Program Run

/-- The slot of a name of the unit's own scope. -/
def Header.slot? (header : Header) (name : String) : Option Nat :=
  header.locals.lookup name

/-- Binds a name of the function and gives it a value. -/
def bindName (header : Header) (env : EnvironmentId) (name : String) (v : Value) : Run Unit := do
  match Header.slot? header name with
  | some index => setSlot index v
  | none =>
    if !(← heap).hasBinding env name then createBinding env name false
    setBinding env name v false

/-- Binds parameters to arguments; missing ones are undefined. -/
def bindParams (header : Header) (env : EnvironmentId) : List String → List Value → Run Unit
  | [], _ => return ()
  | name :: names, args => do
    bindName header env name (args.headD .undefined)
    bindParams header env names args.tail

/-- Makes and binds the declared functions. -/
def bindFunctions (header : Header) (env : EnvironmentId) : List Routine → Run Unit
  | [] => return ()
  | routine :: rest => do
    let f ← newFunction routine env
    match routine.header.name with
    | some name => bindName header env name (.object f)
    | none => pure ()
    bindFunctions header env rest

/-- Where a parameter lives. -/
def aliasOf (header : Header) (frame : FrameId) (env : EnvironmentId) (name : String) : Alias :=
  match Header.slot? header name with
  | some index => .slot frame index
  | none => .binding env name

/-- The parameters that elements of the arguments object stand for: of several parameters with one
name only the last one that got an argument. -/
def mappedFrom (header : Header) (frame : FrameId) (env : EnvironmentId) (index : Nat) :
    List String → List (Nat × Alias)
  | [] => []
  | name :: rest =>
    let mapped := mappedFrom header frame env (index + 1) rest
    if rest.contains name then mapped else (index, aliasOf header frame env name) :: mapped

/-- Makes the arguments object of a call. -/
def newArguments (header : Header) (f : ObjectId) (frame : FrameId) (env : EnvironmentId)
    (args : List Value) : Run ObjectId :=
  let length := ("length", Descriptor.hidden (.ofNat args.length))
  let names :=
    if header.strict then length :: poisoned ["caller", "callee"]
    else [length, ("callee", .hidden (.object f))]
  let mapped :=
    if header.strict then []
    else mappedFrom header frame env 0 (header.params.take args.length)
  newObject (.arguments mapped) (some Intrinsic.objectPrototype)
    (.ofElements names (args.map some))

/-- Whether a call makes an arguments object: the code may look at it, and no parameter and no
function takes its name. -/
def needsArguments (routine : Routine) : Bool :=
  let header := routine.header
  (header.usesArguments || header.directEval) && !header.params.contains "arguments" &&
    !routine.functions.any fun f => f.header.name == some "arguments"

/-- Binds the arguments object; in strict code the binding is constant. -/
def bindArguments (header : Header) (env : EnvironmentId) (id : ObjectId) : Run Unit := do
  match Header.slot? header "arguments" with
  | some index => setSlot index (.object id)
  | none =>
    if header.strict && ((← heap).bindings? env).isSome then
      bindConstant env "arguments" (.object id)
    else bindName header env "arguments" (.object id)

/-- Binds the variables that are not bound yet. -/
def bindVariables (header : Header) (env : EnvironmentId) : List String → Run Unit
  | [] => return ()
  | name :: rest => do
    if (Header.slot? header name).isNone && !(← heap).hasBinding env name then
      createBinding env name false
      setBinding env name .undefined false
    bindVariables header env rest

/-- Binds all names of a function. -/
def instantiate (routine : Routine) (f : ObjectId) (frame : FrameId) (env : EnvironmentId)
    (args : List Value) : Run Unit := do
  let header := routine.header
  bindParams header env header.params args
  bindFunctions header env routine.functions
  if needsArguments routine then
    bindArguments header env (← newArguments header f frame env args)
  bindVariables header env header.variables

/-- The receiver that code sees: outside strict code it is always an object. -/
def receiverOf (header : Header) (this : Value) : Run Value := do
  if header.strict then return this
  match this with
  | .undefined => return .object Intrinsic.global
  | .null => return .object Intrinsic.global
  | v => return .object (← toObject v)

/-- The value a function returns. -/
def returned (c : Completion) : Value :=
  if c.jump = some .returning then c.result else .undefined

/-- Runs the code of a function in its context. -/
def activate (routine : Routine) (f : ObjectId) (scope : EnvironmentId) (this : Value)
    (args : List Value) : Run Value := do
  let header := routine.header
  let env ← if header.collapsed then pure scope else newScope scope
  let this ← receiverOf header this
  let frame ← updateHeap fun h => h.addFrame (Array.replicate header.slots .undefined)
  modifyRunning fun c =>
    { c with lexicalEnv := env, variableEnv := env, this := this, frame := frame }
  instantiate routine f frame env args
  return returned (← executeAll header.strict none routine.body)

/-- Calls a function of a script. -/
def callScript (routine : Routine) (f : ObjectId) (scope : EnvironmentId) (this : Value)
    (args : List Value) : Run Value :=
  let header := routine.header
  let context : Context :=
    { function := some f, code := some header, position := header.span.start }
  inContext context (activate routine f scope this args)

/-- Makes an object with a function of a script; its prototype comes from the function. -/
def constructScript (routine : Routine) (f : ObjectId) (scope : EnvironmentId)
    (args : List Value) : Run Value := do
  let prototype ← get f (.name "prototype")
  let id ← newObject .ordinary (some (prototype.object?.getD Intrinsic.objectPrototype))
  let result ← callScript routine f scope (.object id) args
  return if result.isObject then result else .object id

end Ecma
