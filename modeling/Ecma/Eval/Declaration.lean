import Ecma.Eval.Statement

set_option autoImplicit false

/-!
Entering global and eval code. The functions and variables it declares are bound in its variable
environment; names that eval code declares can be deleted.
-/

namespace Ecma

open Ecma.Program Run

/-- Whether a property of the global object stands in the way of a declared function. -/
def blocksFunction (d : Descriptor) : Bool :=
  !d.isData || !(d.writable && d.enumerable)

/-- Makes room for a declared function whose name the global object has already. -/
def redeclareGlobal (name : String) (deletable : Bool) : Run Unit := do
  match (← heap).property? Intrinsic.global (.ofString name) with
  | none => return ()
  | some d =>
    if d.configurable then
      discard <| defineOwn Intrinsic.global (.ofString name)
        (.ofDescriptor (.data .undefined true true deletable)) true
    else if blocksFunction d then throwTypeError s!"Cannot redeclare function '{name}'"

/-- Binds a declared function. -/
def declareFunction (env : EnvironmentId) (strict deletable : Bool) (name : String)
    (f : ObjectId) : Run Unit := do
  if !(← heap).hasBinding env name then createBinding env name deletable
  else if env == Intrinsic.globalEnvironment then redeclareGlobal name deletable
  setBinding env name (.object f) strict

def declareFunctions (env : EnvironmentId) (strict deletable : Bool) : List Routine → Run Unit
  | [] => return ()
  | routine :: rest => do
    match routine.header.name with
    | some name => declareFunction env strict deletable name (← newFunction routine env)
    | none => pure ()
    declareFunctions env strict deletable rest

/-- Binds the variables that are not bound yet. -/
def declareVariables (env : EnvironmentId) (strict deletable : Bool) : List String → Run Unit
  | [] => return ()
  | name :: rest => do
    if !(← heap).hasBinding env name then
      createBinding env name deletable
      setBinding env name .undefined strict
    declareVariables env strict deletable rest

/-- Binds everything that global or eval code declares. -/
def declare (routine : Routine) (env : EnvironmentId) (deletable : Bool) : Run Unit := do
  let header := routine.header
  declareFunctions env header.strict deletable routine.functions
  declareVariables env header.strict deletable header.variables

/-- Runs global or eval code and gives the value of its last statement that has one. -/
def runCode (routine : Routine) (lexicalEnv variableEnv : EnvironmentId) (this : Value)
    (deletable : Bool) : Run Value :=
  let header := routine.header
  let context : Context :=
    { code := some header, position := header.span.start, lexicalEnv := lexicalEnv
      variableEnv := variableEnv, this := this }
  inContext context do
    declare routine variableEnv deletable
    return (← executeAll header.strict none routine.body).result

end Ecma
