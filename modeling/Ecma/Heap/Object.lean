import Ecma.Builtin.Name
import Ecma.Program.Tree
import Ecma.Property.Table

set_option autoImplicit false

/-!
Objects. The kind of an object selects how its properties behave and what calling it does; beside the
kind there are its own properties, its prototype, and whether properties can be added.
-/

namespace Ecma

open Ecma.Program

/-- One line of a captured stack: the code that was running and where. -/
structure StackFrame where
  function : Option ObjectId
  name : Option String
  source : Text.Source
  position : Nat
deriving Inhabited

namespace StackFrame

/-- The name of the code; code without a name is a function's or the program's own. -/
def title (f : StackFrame) : String :=
  f.name.getD (if f.function.isSome then "<anonymous>" else "<global>")

def text (f : StackFrame) : String :=
  let (line, column) := f.source.lineCol f.position
  let file := f.source.filename
  let title := f.title
  s!"    at {title} ({file}:{line}:{column})"

end StackFrame

/-- What calling a function object does. -/
inductive Callable where
  /-- Code of a script, with the environment it was created in. -/
  | script (routine : Routine) (scope : EnvironmentId)
  | builtin (f : Builtin)
  /-- Another function, with its receiver and its first arguments fixed. -/
  | bound (target : ObjectId) (receiver : Value) (args : List Value)
  /-- A function of the host, known by the name it is registered under. -/
  | host (name : String)
deriving Inhabited

namespace Callable

def isStrict : Callable → Bool
  | .script routine _ => routine.header.strict
  | _ => false

def name? : Callable → Option String
  | .script routine _ => routine.header.name
  | .builtin f => some f.signature.name
  | .bound _ _ _ => some "bound"
  | .host name => some name

end Callable

/-- Where a parameter lives that an element of an arguments object stands for. -/
inductive Alias where
  | slot (frame : FrameId) (index : Nat)
  | binding (env : EnvironmentId) (name : String)
deriving DecidableEq, Repr, Inhabited

inductive ObjectKind where
  | ordinary
  | array
  | function (f : Callable)
  /-- The arguments of a call, with the indices that still stand for parameters. -/
  | arguments (mapped : List (Nat × Alias))
  | error (frames : List StackFrame)
  | boolean (b : Bool)
  | number (x : Float)
  | string (s : String)
deriving Inhabited

namespace ObjectKind

def className : ObjectKind → String
  | .ordinary => "Object"
  | .array => "Array"
  | .function _ => "Function"
  | .arguments _ => "Arguments"
  | .error _ => "Error"
  | .boolean _ => "Boolean"
  | .number _ => "Number"
  | .string _ => "String"

/-- The primitive that a wrapper object holds. -/
def primitive? : ObjectKind → Option Value
  | .boolean b => some (.boolean b)
  | .number x => some (.number x)
  | .string s => some (.string s)
  | _ => none

def callable? : ObjectKind → Option Callable
  | .function f => some f
  | _ => none

end ObjectKind

structure Object where
  kind : ObjectKind := .ordinary
  prototype : Option ObjectId := none
  extensible : Bool := true
  properties : PropertyTable := {}
deriving Inhabited

end Ecma
