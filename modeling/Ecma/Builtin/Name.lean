set_option autoImplicit false

/-!
The functions that the engine provides, by family. Each has a name, a number of parameters that
scripts see as its length, and says whether `new` accepts it.
-/

namespace Ecma

/-- The kinds of error that the engine itself raises. -/
inductive ErrorKind where
  | referenceError
  | typeError
  | rangeError
  | syntaxError
  | evalError
  | uriError
deriving DecidableEq, Repr, Inhabited

def ErrorKind.name : ErrorKind → String
  | .referenceError => "ReferenceError"
  | .typeError => "TypeError"
  | .rangeError => "RangeError"
  | .syntaxError => "SyntaxError"
  | .evalError => "EvalError"
  | .uriError => "URIError"

inductive GlobalFunction where
  | eval | isNaN | isFinite | parseInt | parseFloat
  | setSystemProperty | getSystemProperty
  | setSystemHandler | getSystemHandler | removeSystemHandler
  | customFunction
deriving DecidableEq, Repr, Inhabited

inductive ObjectFunction where
  | constructor
  | getPrototypeOf | getOwnPropertyDescriptor | getOwnPropertyNames | keys
  | create | defineProperty | defineProperties
  | preventExtensions | isExtensible | freeze | isFrozen | seal | isSealed
  | toString | valueOf | hasOwnProperty | isPrototypeOf | propertyIsEnumerable
deriving DecidableEq, Repr, Inhabited

inductive FunctionFunction where
  | prototype | throwTypeError
  | constructor
  | call | apply | bind | toString
deriving DecidableEq, Repr, Inhabited

inductive ArrayFunction where
  | constructor
  | isArray
  | push | pop | join | toString | slice | indexOf
deriving DecidableEq, Repr, Inhabited

inductive StringFunction where
  | constructor
  | toString | valueOf | charAt | charCodeAt | indexOf | slice | substring
deriving DecidableEq, Repr, Inhabited

inductive NumberFunction where
  | constructor
  | toString | valueOf
deriving DecidableEq, Repr, Inhabited

inductive BooleanFunction where
  | constructor
  | toString | valueOf
deriving DecidableEq, Repr, Inhabited

inductive ErrorFunction where
  /-- The constructor of plain errors. -/
  | constructor
  | native (kind : ErrorKind)
  | toString | stack
deriving DecidableEq, Repr, Inhabited

inductive ConsoleFunction where
  | log | error
deriving DecidableEq, Repr, Inhabited

/-- A function that the engine provides. -/
inductive Builtin where
  | global (f : GlobalFunction)
  | object (f : ObjectFunction)
  | function (f : FunctionFunction)
  | array (f : ArrayFunction)
  | string (f : StringFunction)
  | number (f : NumberFunction)
  | boolean (f : BooleanFunction)
  | error (f : ErrorFunction)
  | console (f : ConsoleFunction)
deriving DecidableEq, Repr, Inhabited

/-- What scripts see of a provided function. -/
structure Signature where
  name : String
  length : Nat
  isConstructor : Bool := false
deriving DecidableEq, Repr, Inhabited

def GlobalFunction.signature : GlobalFunction → Signature
  | .eval => ⟨"eval", 1, false⟩
  | .isNaN => ⟨"isNaN", 1, false⟩
  | .isFinite => ⟨"isFinite", 1, false⟩
  | .parseInt => ⟨"parseInt", 2, false⟩
  | .parseFloat => ⟨"parseFloat", 1, false⟩
  | .setSystemProperty => ⟨"setSystemProperty", 2, false⟩
  | .getSystemProperty => ⟨"getSystemProperty", 1, false⟩
  | .setSystemHandler => ⟨"setSystemHandler", 2, false⟩
  | .getSystemHandler => ⟨"getSystemHandler", 1, false⟩
  | .removeSystemHandler => ⟨"removeSystemHandler", 1, false⟩
  | .customFunction => ⟨"CustomFunction", 1, true⟩

def ObjectFunction.signature : ObjectFunction → Signature
  | .constructor => ⟨"Object", 1, true⟩
  | .getPrototypeOf => ⟨"getPrototypeOf", 1, false⟩
  | .getOwnPropertyDescriptor => ⟨"getOwnPropertyDescriptor", 2, false⟩
  | .getOwnPropertyNames => ⟨"getOwnPropertyNames", 1, false⟩
  | .keys => ⟨"keys", 1, false⟩
  | .create => ⟨"create", 2, false⟩
  | .defineProperty => ⟨"defineProperty", 3, false⟩
  | .defineProperties => ⟨"defineProperties", 2, false⟩
  | .preventExtensions => ⟨"preventExtensions", 1, false⟩
  | .isExtensible => ⟨"isExtensible", 1, false⟩
  | .freeze => ⟨"freeze", 1, false⟩
  | .isFrozen => ⟨"isFrozen", 1, false⟩
  | .seal => ⟨"seal", 1, false⟩
  | .isSealed => ⟨"isSealed", 1, false⟩
  | .toString => ⟨"toString", 0, false⟩
  | .valueOf => ⟨"valueOf", 0, false⟩
  | .hasOwnProperty => ⟨"hasOwnProperty", 1, false⟩
  | .isPrototypeOf => ⟨"isPrototypeOf", 1, false⟩
  | .propertyIsEnumerable => ⟨"propertyIsEnumerable", 1, false⟩

def FunctionFunction.signature : FunctionFunction → Signature
  | .prototype => ⟨"", 0, false⟩
  | .throwTypeError => ⟨"ThrowTypeError", 0, false⟩
  | .constructor => ⟨"Function", 1, true⟩
  | .call => ⟨"call", 1, false⟩
  | .apply => ⟨"apply", 2, false⟩
  | .bind => ⟨"bind", 1, false⟩
  | .toString => ⟨"toString", 0, false⟩

def ArrayFunction.signature : ArrayFunction → Signature
  | .constructor => ⟨"Array", 1, true⟩
  | .isArray => ⟨"isArray", 1, false⟩
  | .push => ⟨"push", 1, false⟩
  | .pop => ⟨"pop", 0, false⟩
  | .join => ⟨"join", 1, false⟩
  | .toString => ⟨"toString", 0, false⟩
  | .slice => ⟨"slice", 2, false⟩
  | .indexOf => ⟨"indexOf", 1, false⟩

def StringFunction.signature : StringFunction → Signature
  | .constructor => ⟨"String", 1, true⟩
  | .toString => ⟨"toString", 0, false⟩
  | .valueOf => ⟨"valueOf", 0, false⟩
  | .charAt => ⟨"charAt", 1, false⟩
  | .charCodeAt => ⟨"charCodeAt", 1, false⟩
  | .indexOf => ⟨"indexOf", 1, false⟩
  | .slice => ⟨"slice", 2, false⟩
  | .substring => ⟨"substring", 2, false⟩

def NumberFunction.signature : NumberFunction → Signature
  | .constructor => ⟨"Number", 1, true⟩
  | .toString => ⟨"toString", 1, false⟩
  | .valueOf => ⟨"valueOf", 0, false⟩

def BooleanFunction.signature : BooleanFunction → Signature
  | .constructor => ⟨"Boolean", 1, true⟩
  | .toString => ⟨"toString", 0, false⟩
  | .valueOf => ⟨"valueOf", 0, false⟩

def ErrorFunction.signature : ErrorFunction → Signature
  | .constructor => ⟨"Error", 1, true⟩
  | .native kind => ⟨kind.name, 1, true⟩
  | .toString => ⟨"toString", 0, false⟩
  | .stack => ⟨"stack", 0, false⟩

def ConsoleFunction.signature : ConsoleFunction → Signature
  | .log => ⟨"log", 0, false⟩
  | .error => ⟨"error", 0, false⟩

def Builtin.signature : Builtin → Signature
  | .global f => f.signature
  | .object f => f.signature
  | .function f => f.signature
  | .array f => f.signature
  | .string f => f.signature
  | .number f => f.signature
  | .boolean f => f.signature
  | .error f => f.signature
  | .console f => f.signature

end Ecma
