import Ecma.Operation.Reference
import Ecma.Program.Compile
import Ecma.Syntax.Parse

set_option autoImplicit false

/-!
Entering code given as text. A direct call of `eval` runs in the environments of its caller, any other
in the global ones; strict code gets an environment of its own.
-/

namespace Ecma

open Ecma.Program Ecma.Syntax Run

/-- Turns a syntax error in a text into an error that scripts can catch. -/
def parsedOr (text : String) (result : Except SyntaxError Parsed) : Run Parsed :=
  match result with
  | .ok parsed => return parsed
  | .error e => Run.throwError .syntaxError (e.message text)

/-- Parses and runs a text as eval code. -/
def runEvalCode (text : String) (strictCaller : Bool) (caller : Context) : Run Value := do
  let collapse := (← MonadState.get).config.collapse
  let parsed ← parsedOr text (parseEval text strictCaller collapse)
  let routine := compile parsed
  if routine.header.strict then
    let env ← newScope caller.lexicalEnv
    enter (.code routine env env caller.this true)
  else enter (.code routine caller.lexicalEnv caller.variableEnv caller.this true)

/-- The argument of `eval`; only a text is code. -/
def evaluateText (v : Value) (strictCaller : Bool) (caller : Context) : Run Value :=
  match v with
  | .string text => runEvalCode text strictCaller caller
  | v => return v

/-- A call of `eval` by its name. -/
def directEval (args : List Value) (strict : Bool) : Run Value := do
  evaluateText (args.headD .undefined) strict (← running)

/-- The context of global code before it runs. -/
def globalContext : Context :=
  { this := .object Intrinsic.global }

/-- Any other call of `eval`. -/
def indirectEval (args : List Value) : Run Value :=
  evaluateText (args.headD .undefined) false globalContext

end Ecma
