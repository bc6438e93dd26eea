import Ecma.Heap.Define
import Ecma.Realm.Run

set_option autoImplicit false

/-!
Calls, reading properties, and conversions. Reading a property may call a getter, and converting an
object calls its own methods, so all of these may run code.
-/

namespace Ecma

open Ecma.Program Run

/-- Calls a value, which has to be a function. -/
def call (f this : Value) (args : List Value) : Run Value := do
  let h ← heap
  match f with
  | .object id =>
    if (h.callable? id).isSome then enter (.call id this args)
    else throwTypeError "object is not a function"
  | f =>
    let type := h.typeOf f
    throwTypeError s!"{type} is not a function"

/-- Makes an object with a value, which has to be a function. -/
def construct (f : Value) (args : List Value) : Run Value := do
  let h ← heap
  match f with
  | .object id =>
    if (h.callable? id).isSome then enter (.construct id args)
    else throwTypeError "object is not a constructor"
  | f =>
    let type := h.typeOf f
    throwTypeError s!"{type} is not a constructor"

/-! Reading properties. -/

/-- What a property reads as; a getter is called on the receiver. -/
def readDescriptor (d : Option Descriptor) (receiver : Value) : Run Value :=
  match d with
  | some (.data v _ _ _) => return v
  | some (.accessor (some getter) _ _ _) => call (.object getter) receiver []
  | _ => return .undefined

/-- Whether reading `caller` of the object must not give away a strict function. -/
def guardsCaller (h : Heap) (id : ObjectId) : Bool :=
  match h.kind id with
  | .function _ => true
  | .arguments _ => true
  | _ => false

/-- The value of a property of an object. -/
def get (id : ObjectId) (key : PropertyKey) : Run Value := do
  match (← heap).aliased? id key with
  | some v => return v
  | none =>
    let v ← readDescriptor ((← heap).property? id key) (.object id)
    let h ← heap
    if key == .name "caller" && h.isStrictFunction v && guardsCaller h id then
      throwTypeError "'caller' of a strict mode function cannot be accessed"
    return v

/-- The value of a property of any value. A primitive reads through the prototype of its wrapper, and
a getter is called on the primitive itself. -/
def getOf (base : Value) (key : PropertyKey) : Run Value := do
  match base with
  | .object id => get id key
  | .string s =>
    if key == .length then return .ofNat (Text.unitLength s)
    match Heap.character? s key with
    | some d => return d.value
    | none => readDescriptor ((← heap).property? Intrinsic.stringPrototype key) base
  | .number _ => readDescriptor ((← heap).property? Intrinsic.numberPrototype key) base
  | .boolean _ => readDescriptor ((← heap).property? Intrinsic.booleanPrototype key) base
  | _ =>
    let name := key.text
    let value := base.primitiveText
    throwTypeError s!"Cannot read property '{name}' of {value}"

/-! Conversions. -/

/-- Which primitive an object is asked for. -/
inductive Hint where
  | string
  | number
deriving DecidableEq, Repr, Inhabited

/-- The methods that give the primitive of an object, in the order in which they are tried. -/
def Hint.methods : Hint → List String
  | .string => ["toString", "valueOf"]
  | .number => ["valueOf", "toString"]

/-- Tries methods until one gives a primitive. -/
def firstPrimitive (id : ObjectId) : List String → Run Value
  | [] => throwTypeError "Cannot convert object to primitive value"
  | method :: rest => do
    let f ← get id (.name method)
    if (← heap).isCallable f then
      let v ← call f (.object id) []
      if v.isObject then firstPrimitive id rest else return v
    else firstPrimitive id rest

def toPrimitive (v : Value) (hint : Hint) : Run Value :=
  match v with
  | .object id => firstPrimitive id hint.methods
  | v => return v

def toNumber (v : Value) : Run Float :=
  return (← toPrimitive v .number).primitiveNumber

def toText (v : Value) : Run String :=
  return (← toPrimitive v .string).primitiveText

def toInteger (v : Value) : Run Float :=
  return Number.toInteger (← toNumber v)

def toUint32 (v : Value) : Run Nat :=
  return Number.toUint32 (← toNumber v)

def toInt32 (v : Value) : Run Int :=
  return Number.toInt32 (← toNumber v)

/-- The key that a value names; a number that is an index needs no text. -/
def toPropertyKey (v : Value) : Run PropertyKey :=
  match v with
  | .number x =>
    match PropertyKey.ofIndexNumber? x with
    | some key => return key
    | none => return .ofString (Number.text x)
  | v => return .ofString (← toText v)

/-- Wraps a string; its characters are properties that need not be stored. -/
def newStringObject (s : String) : Run ObjectId :=
  newObject (.string s) (some Intrinsic.stringPrototype)
    (.ofNames [("length", .final (.ofNat (Text.unitLength s)))])

/-- The object that a value stands for. -/
def toObject (v : Value) : Run ObjectId :=
  match v with
  | .object id => return id
  | .boolean b => newObject (.boolean b) (some Intrinsic.booleanPrototype)
  | .number x => newObject (.number x) (some Intrinsic.numberPrototype)
  | .string s => newStringObject s
  | v =>
    let value := v.primitiveText
    throwTypeError s!"Cannot convert {value} to object"

end Ecma
