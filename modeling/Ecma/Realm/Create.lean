import Ecma.Eval.Function

set_option autoImplicit false

/-!
A realm at its beginning: the intrinsic objects, and the provided functions as properties of them and
of the global object.
-/

namespace Ecma

/-- The intrinsic objects, in the order of their numbers. -/
def intrinsicObjects : Array Object :=
  let under (kind : ObjectKind) (prototype : ObjectId) (names : List (String × Descriptor)) : Object :=
    { kind := kind, prototype := some prototype, properties := .ofNames names }
  let error := under (.error []) Intrinsic.errorPrototype []
  #[{},
    { newBuiltin (.function .prototype) with prototype := some Intrinsic.objectPrototype },
    under .array Intrinsic.objectPrototype [("length", .hidden (.number 0.0))],
    under (.string "") Intrinsic.objectPrototype [("length", .final (.number 0.0))],
    under (.number 0.0) Intrinsic.objectPrototype [],
    under (.boolean false) Intrinsic.objectPrototype [],
    under (.error []) Intrinsic.objectPrototype [],
    error, error, error, error, error, error,
    newBuiltin (.error .constructor),
    newBuiltin (.global .eval),
    { newBuiltin (.function .throwTypeError) with extensible := false },
    under .ordinary Intrinsic.objectPrototype []]

/-- The heap before any provided function is bound. -/
def intrinsicHeap : Heap :=
  { objects := intrinsicObjects
    environments := #[⟨.object Intrinsic.global false, none⟩]
    frames := #[#[]] }

abbrev Setup := StateM Heap

namespace Setup

def define (holder : ObjectId) (name : String) (d : Descriptor) : Setup Unit :=
  modify fun h => h.store holder (.ofString name) d

def add (f : Builtin) : Setup ObjectId :=
  modifyGet fun h => h.addObject (newBuiltin f)

/-- Adds a provided function under its name. -/
def method (holder : ObjectId) (f : Builtin) : Setup Unit := do
  define holder f.signature.name (.hidden (.object (← add f)))

def bindGlobal (name : String) (id : ObjectId) : Setup Unit :=
  define Intrinsic.global name (.hidden (.object id))

/-- Adds a constructor with functions and values of its own, and methods of its prototype. -/
def constructor (f : Builtin) (prototype : ObjectId) (statics : List Builtin)
    (values : List (String × Value)) (methods : List Builtin) : Setup Unit := do
  let id ← add f
  statics.forM (method id)
  values.forM fun (name, v) => define id name (.hidden v)
  define id "prototype" (.final (.object prototype))
  define prototype "constructor" (.hidden (.object id))
  methods.forM (method prototype)
  bindGlobal f.signature.name id

/-- Ties a constructor of errors to its prototype. -/
def errorConstructor (id prototype : ObjectId) (name : String) : Setup Unit := do
  define id "prototype" (.final (.object prototype))
  define prototype "constructor" (.hidden (.object id))
  define prototype "name" (.hidden (.string name))
  define prototype "message" (.hidden (.string ""))
  bindGlobal name id

def globals : Setup Unit := do
  let constant (name : String) (v : Value) := define Intrinsic.global name (.final v)
  constant "NaN" (.number Number.nan)
  constant "Infinity" (.number Number.infinity)
  constant "undefined" .undefined
  constant "global" (.object Intrinsic.global)
  bindGlobal "eval" Intrinsic.evalFunction
  let functions : List GlobalFunction :=
    [.isNaN, .isFinite, .parseInt, .parseFloat, .setSystemProperty, .getSystemProperty,
      .setSystemHandler, .getSystemHandler, .removeSystemHandler, .customFunction]
  functions.forM fun f => method Intrinsic.global (.global f)

def objects : Setup Unit := do
  let statics : List ObjectFunction :=
    [.getPrototypeOf, .getOwnPropertyDescriptor, .getOwnPropertyNames, .keys, .create,
      .defineProperty, .defineProperties, .preventExtensions, .isExtensible, .freeze, .isFrozen,
      .seal, .isSealed]
  let methods : List ObjectFunction :=
    [.toString, .valueOf, .hasOwnProperty, .isPrototypeOf, .propertyIsEnumerable]
  constructor (.object .constructor) Intrinsic.objectPrototype (statics.map .object) []
    (methods.map .object)

def functions : Setup Unit := do
  let methods : List FunctionFunction := [.call, .apply, .bind, .toString]
  constructor (.function .constructor) Intrinsic.functionPrototype [] [] (methods.map .function)

def arrays : Setup Unit := do
  let methods : List ArrayFunction := [.push, .pop, .join, .toString, .slice, .indexOf]
  constructor (.array .constructor) Intrinsic.arrayPrototype [.array .isArray] []
    (methods.map .array)

def strings : Setup Unit := do
  let methods : List StringFunction :=
    [.toString, .valueOf, .charAt, .charCodeAt, .indexOf, .slice, .substring]
  constructor (.string .constructor) Intrinsic.stringPrototype [] [] (methods.map .string)

/-- The largest finite number. -/
def largestNumber : Float :=
  Number.Scaled.toFloat ⟨false, Nat.pow 2 53 - 1, 971⟩

/-- The smallest positive number. -/
def smallestNumber : Float :=
  Number.Scaled.toFloat ⟨false, 1, -1074⟩

def numbers : Setup Unit := do
  let values : List (String × Float) :=
    [("MAX_VALUE", largestNumber), ("MIN_VALUE", smallestNumber), ("NaN", Number.nan),
      ("POSITIVE_INFINITY", Number.infinity), ("NEGATIVE_INFINITY", -Number.infinity)]
  constructor (.number .constructor) Intrinsic.numberPrototype []
    (values.map fun (name, x) => (name, .number x)) [.number .toString, .number .valueOf]
  constructor (.boolean .constructor) Intrinsic.booleanPrototype [] []
    [.boolean .toString, .boolean .valueOf]

def errors (traceLimit : Nat) : Setup Unit := do
  errorConstructor Intrinsic.errorConstructor Intrinsic.errorPrototype "Error"
  define Intrinsic.errorConstructor "stackTraceLimit" (.free (.ofNat traceLimit))
  method Intrinsic.errorPrototype (.error .toString)
  let stack ← add (.error .stack)
  define Intrinsic.errorPrototype "stack" (.accessor (some stack) none false false)
  let kinds : List ErrorKind :=
    [.typeError, .referenceError, .rangeError, .syntaxError, .evalError, .uriError]
  kinds.forM fun kind => do
    let id ← add (.error (.native kind))
    errorConstructor id kind.prototype kind.name

def console : Setup Unit := do
  let id ← modifyGet fun h => h.addObject { prototype := some Intrinsic.objectPrototype }
  method id (.console .log)
  method id (.console .error)
  bindGlobal "console" id

/-- Adds everything the engine provides. -/
def all (traceLimit : Nat) : Setup Unit := do
  globals
  objects
  functions
  arrays
  strings
  numbers
  errors traceLimit
  console

end Setup

/-- A fresh realm. -/
def Realm.create (config : Config) : Realm :=
  { heap := ((Setup.all config.traceLimit).run intrinsicHeap).2, config := config }

end Ecma
