import Ecma.Heap.Store

set_option autoImplicit false

/-!
A realm: the heap with the global object in it, what is running at the moment, and the limits that
running code is held to.
-/

namespace Ecma

open Ecma.Program

/-- The limits of a realm. -/
structure Config where
  /-- How many contexts may be waiting below the running one. -/
  depthLimit : Nat := 200
  /-- How many statements and rounds of loops one entry may take. -/
  stepsLimit : Option Nat := none
  /-- How many lines an error captures, unless a script sets another number. -/
  traceLimit : Nat := 10
  /-- Whether bindings may live in local frames. -/
  collapse : Bool := true
deriving DecidableEq, Repr, Inhabited

/-! The objects that every realm starts with have fixed numbers. -/

namespace Intrinsic

def objectPrototype : ObjectId := 0
def functionPrototype : ObjectId := 1
def arrayPrototype : ObjectId := 2
def stringPrototype : ObjectId := 3
def numberPrototype : ObjectId := 4
def booleanPrototype : ObjectId := 5
def errorPrototype : ObjectId := 6
def typeErrorPrototype : ObjectId := 7
def referenceErrorPrototype : ObjectId := 8
def rangeErrorPrototype : ObjectId := 9
def syntaxErrorPrototype : ObjectId := 10
def evalErrorPrototype : ObjectId := 11
def uriErrorPrototype : ObjectId := 12
def errorConstructor : ObjectId := 13
def evalFunction : ObjectId := 14
def throwTypeError : ObjectId := 15
def global : ObjectId := 16

/-- The environment of global code. -/
def globalEnvironment : EnvironmentId := 0

/-- The names of the intrinsic objects, in the order of their numbers. -/
def names : List String :=
  ["Object.prototype", "Function.prototype", "Array.prototype", "String.prototype",
    "Number.prototype", "Boolean.prototype", "Error.prototype", "TypeError.prototype",
    "ReferenceError.prototype", "RangeError.prototype", "SyntaxError.prototype",
    "EvalError.prototype", "URIError.prototype", "Error", "eval", "ThrowTypeError", "global"]

def name? (id : ObjectId) : Option String :=
  names[id]?

end Intrinsic

/-- The prototype of the errors of a kind. -/
def ErrorKind.prototype : ErrorKind → ObjectId
  | .typeError => Intrinsic.typeErrorPrototype
  | .referenceError => Intrinsic.referenceErrorPrototype
  | .rangeError => Intrinsic.rangeErrorPrototype
  | .syntaxError => Intrinsic.syntaxErrorPrototype
  | .evalError => Intrinsic.evalErrorPrototype
  | .uriError => Intrinsic.uriErrorPrototype

/-- What is running: the function, the code and the place in it, and what names refer to. -/
structure Context where
  function : Option ObjectId := none
  /-- None while a provided function runs. -/
  code : Option Header := none
  position : Nat := 0
  lexicalEnv : EnvironmentId := Intrinsic.globalEnvironment
  variableEnv : EnvironmentId := Intrinsic.globalEnvironment
  this : Value := .undefined
  frame : FrameId := 0
deriving Inhabited

/-- The line of a captured stack that a context makes; provided functions make none. -/
def Context.frame? (c : Context) : Option StackFrame :=
  c.code.map fun header => ⟨c.function, header.name, header.source, c.position⟩

structure Realm where
  heap : Heap
  config : Config
  running : Context := {}
  /-- The contexts that wait for the running one, the latest first. -/
  waiting : List Context := []
  steps : Nat := 0
  /-- The registered functions of the host, by name; the host knows each by a word of its own. -/
  hosts : Dictionary String := []
  handlers : Dictionary Value := []
  stdout : String := ""
  stderr : String := ""
deriving Inhabited

namespace Realm

/-- How many contexts are waiting. -/
def depth (r : Realm) : Nat :=
  r.waiting.length

/-- The number of lines an error captures: what scripts set, if that is a number, or the limit. -/
def traceLimit (r : Realm) : Nat :=
  match r.heap.own? Intrinsic.errorConstructor (.name "stackTraceLimit") with
  | some (.data (.number x) _ _ _) =>
    if x ≥ 0.0 then Number.clamp (Nat.pow 2 64 - 1) x else r.config.traceLimit
  | _ => r.config.traceLimit

/-- The lines of a stack captured now, the innermost first. -/
def captureStack (r : Realm) : List StackFrame :=
  ((r.running :: r.waiting).filterMap Context.frame?).take r.traceLimit

end Realm

end Ecma
