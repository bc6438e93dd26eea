import Ecma.Builtin.Argument
import Ecma.Eval.Code
import Ecma.Eval.Function

set_option autoImplicit false

/-!
The constructor `Function`, which makes functions of texts, and the methods of functions.
-/

namespace Ecma

open Ecma.Program Run

/-- The receiver of a method, which has to be a function. -/
def receiverFunction (this : Value) (method : String) : Run ObjectId := do
  match this.object?, (← heap).isCallable this with
  | some id, true => return id
  | _, _ => throwUnfit this fun type => s!"Function.prototype.{method} called on {type}"

def toTexts : List Value → Run (List String)
  | [] => return []
  | v :: rest => do
    let s ← toText v
    let ss ← toTexts rest
    return s :: ss

/-- Makes a function of the texts of its parameters and, last, of its body. -/
def newFunctionOfTexts (texts : List String) : Run ObjectId := do
  let params := String.intercalate "," texts.dropLast
  let body := texts.getLast?.getD ""
  let collapse := (← MonadState.get).config.collapse
  let parsed ← parsedOr (Syntax.functionText params body) (Syntax.parseFunction params body collapse)
  newFunction (compile parsed) Intrinsic.globalEnvironment

/-- The elements of an object that stands for a list of arguments. -/
def argumentList (v : Value) : Run (List Value) := do
  match v with
  | .undefined => return []
  | .null => return []
  | .object id => readElements id 0 (← lengthOfObject id) []
  | other =>
    throwUnfit other fun type => s!"CreateListFromArrayLike called on non-object ({type})"

/-- The text of a script's function is its source. -/
def functionSource : Option Callable → String
  | some (.script routine _) =>
    let header := routine.header
    Text.slice header.source.text header.span.start header.span.stop
  | f =>
    let name := (f.bind Callable.name?).getD ""
    "function " ++ name ++ "() \x7b [native code] \x7d"

def FunctionFunction.run (f : FunctionFunction) (this : Value) (args : List Value) :
    Run Value := do
  match f with
  | .prototype => return .undefined
  | .throwTypeError =>
    Run.throwTypeError
      "'caller' and 'arguments' are restricted function properties and cannot be accessed in this context"
  | .constructor => return .object (← newFunctionOfTexts (← toTexts args))
  | .call =>
    let f ← receiverFunction this "call"
    Ecma.call (.object f) (argument args 0) args.tail
  | .apply =>
    let f ← receiverFunction this "apply"
    Ecma.call (.object f) (argument args 0) (← argumentList (argument args 1))
  | .bind =>
    let f ← receiverFunction this "bind"
    return .object (← newBoundFunction f (argument args 0) args.tail)
  | .toString =>
    let f ← receiverFunction this "toString"
    return .string (functionSource ((← heap).callable? f))

end Ecma
