import Ecma.Builtin.Argument
import Ecma.Heap.Enumerator

set_option autoImplicit false

/-!
The constructor `Object`, its functions, and the methods that every object has from
`Object.prototype`.
-/

namespace Ecma

open Run

/-- The first argument of a function, which has to be an object. -/
def objectArgument (args : List Value) (method : String) : Run ObjectId := do
  match argument args 0 with
  | .object id => return id
  | other => throwUnfit other fun type => s!"Object.{method} called on non-object ({type})"

/-! Descriptors as objects of scripts. -/

/-- A field of a descriptor object, if it has it. -/
def field (id : ObjectId) (name : String) : Run (Option Value) := do
  if (← heap).hasProperty id (.name name) then
    return some (← get id (.name name))
  return none

/-- A getter or a setter, which has to be a function or undefined. -/
def accessorFunction (v : Value) (which : String) : Run (Option ObjectId) := do
  match v with
  | .undefined => return none
  | v =>
    match v.object?, (← heap).isCallable v with
    | some id, true => return some id
    | _, _ =>
      throwUnfit v fun type => s!"Property descriptor {which} must be a function: {type}"

def optionalAccessor (v : Option Value) (which : String) : Run (Option (Option ObjectId)) := do
  match v with
  | none => return none
  | some v => return some (← accessorFunction v which)

/-- Reads the fields of a descriptor object. -/
def definitionOf (id : ObjectId) : Run Definition := do
  let enumerable ← field id "enumerable"
  let configurable ← field id "configurable"
  let value ← field id "value"
  let writable ← field id "writable"
  let getter ← field id "get"
  let setter ← field id "set"
  if (getter.isSome || setter.isSome) && (value.isSome || writable.isSome) then
    throwTypeError
      "Invalid property descriptor. Cannot both specify accessors and a value or writable attribute"
  let getter ← optionalAccessor getter "getter"
  let setter ← optionalAccessor setter "setter"
  return {
    value := value
    writable := writable.map Value.toBoolean
    getter := getter
    setter := setter
    enumerable := enumerable.map Value.toBoolean
    configurable := configurable.map Value.toBoolean }

/-- Reads a value that has to be a descriptor object. -/
def toDefinition (v : Value) : Run Definition := do
  match v with
  | .object id => definitionOf id
  | other => throwUnfit other fun type => s!"Property description must be an object: {type}"

def functionOrUndefined (f : Option ObjectId) : Value :=
  (f.map Value.object).getD .undefined

/-- The fields of the object that describes a property. -/
def descriptorFields : Descriptor → List (String × Value)
  | .data v w e c =>
    [("value", v), ("writable", .boolean w), ("enumerable", .boolean e),
      ("configurable", .boolean c)]
  | .accessor g s e c =>
    [("get", functionOrUndefined g), ("set", functionOrUndefined s), ("enumerable", .boolean e),
      ("configurable", .boolean c)]

def newDescriptorObject (d : Descriptor) : Run ObjectId :=
  newObject .ordinary (some Intrinsic.objectPrototype)
    (.ofNames ((descriptorFields d).map fun (name, v) => (name, .free v)))

/-- Reads all descriptors of an object. -/
def definitionsOf (id : ObjectId) : List PropertyKey → Run (List (PropertyKey × Definition))
  | [] => return []
  | key :: rest => do
    let d ← toDefinition (← get id key)
    let ds ← definitionsOf id rest
    return (key, d) :: ds

def defineAll (id : ObjectId) : List (PropertyKey × Definition) → Run Unit
  | [] => return ()
  | (key, d) :: rest => do
    discard <| defineOwn id key d true
    defineAll id rest

/-- Defines properties after all their descriptors have been read. -/
def defineFrom (id : ObjectId) (properties : Value) : Run Unit := do
  let source ← toObject properties
  let keys := (← heap).enumerableKeys source
  defineAll id (← definitionsOf source keys)

/-! Locking. -/

/-- What locks a property; only a value can be made read-only. -/
def lockDefinition (d : Descriptor) (readOnly : Bool) : Definition :=
  { configurable := some false, writable := if readOnly && d.isData then some false else none }

def lockKeys (id : ObjectId) (readOnly : Bool) : List PropertyKey → Run Unit
  | [] => return ()
  | key :: rest => do
    match (← heap).own? id key with
    | some d => discard <| defineOwn id key (lockDefinition d readOnly) true
    | none => pure ()
    lockKeys id readOnly rest

/-- Makes all properties permanent, or also read-only, and lets no other be added. -/
def lock (id : ObjectId) (readOnly : Bool) : Run Unit := do
  let keys := (← heap).ownKeys id
  lockKeys id readOnly keys
  modifyHeap fun h => h.preventExtensions id

/-- Whether no property can be added and all are locked. -/
def Heap.isLocked (h : Heap) (id : ObjectId) (locked : Descriptor → Bool) : Bool :=
  !(h.object id).extensible && ((h.ownKeys id).filterMap (h.own? id)).all locked

def Heap.isSealed (h : Heap) (id : ObjectId) : Bool :=
  h.isLocked id fun d => !d.configurable

def Heap.isFrozen (h : Heap) (id : ObjectId) : Bool :=
  h.isLocked id fun d => !d.configurable && !(d.isData && d.writable)

/-! The functions. -/

/-- The word for the class of a value. -/
def classTag (h : Heap) : Value → String
  | .undefined => "Undefined"
  | .null => "Null"
  | .boolean _ => "Boolean"
  | .number _ => "Number"
  | .string _ => "String"
  | .object id => (h.kind id).className

def createObject (args : List Value) : Run Value := do
  let prototype ← match argument args 0 with
    | .object p => pure (some p)
    | .null => pure none
    | other =>
      throwUnfit other fun type => s!"Object prototype may only be an Object or null: {type}"
  let id ← newObject .ordinary prototype
  match argument args 1 with
  | .undefined => return .object id
  | properties =>
    defineFrom id properties
    return .object id

/-- The own property of the receiver that the first argument names. -/
def receiverProperty (this : Value) (args : List Value) : Run (Option Descriptor) := do
  let key ← toPropertyKey (argument args 0)
  let id ← toObject this
  return (← heap).own? id key

def ObjectFunction.run (f : ObjectFunction) (this : Value) (args : List Value) : Run Value := do
  match f with
  | .constructor =>
    match argument args 0 with
    | .undefined => return .object (← newPlainObject)
    | .null => return .object (← newPlainObject)
    | v => return .object (← toObject v)
  | .getPrototypeOf =>
    let id ← objectArgument args "getPrototypeOf"
    return ((((← heap).object id).prototype).map Value.object).getD .null
  | .getOwnPropertyDescriptor =>
    let id ← objectArgument args "getOwnPropertyDescriptor"
    let key ← toPropertyKey (argument args 1)
    match (← heap).own? id key with
    | some d => return .object (← newDescriptorObject d)
    | none => return .undefined
  | .getOwnPropertyNames =>
    let id ← objectArgument args "getOwnPropertyNames"
    let keys := (← heap).ownKeys id
    return .object (← newArray (keys.map fun key => .string key.text))
  | .keys =>
    let id ← objectArgument args "keys"
    let keys := (← heap).enumerableKeys id
    return .object (← newArray (keys.map fun key => .string key.text))
  | .create => createObject args
  | .defineProperty =>
    let id ← objectArgument args "defineProperty"
    let key ← toPropertyKey (argument args 1)
    let d ← toDefinition (argument args 2)
    discard <| defineOwn id key d true
    return .object id
  | .defineProperties =>
    let id ← objectArgument args "defineProperties"
    defineFrom id (argument args 1)
    return .object id
  | .preventExtensions =>
    let id ← objectArgument args "preventExtensions"
    modifyHeap fun h => h.preventExtensions id
    return .object id
  | .isExtensible =>
    let id ← objectArgument args "isExtensible"
    return .boolean ((← heap).object id).extensible
  | .freeze =>
    let id ← objectArgument args "freeze"
    lock id true
    return .object id
  | .seal =>
    let id ← objectArgument args "seal"
    lock id false
    return .object id
  | .isFrozen =>
    let id ← objectArgument args "isFrozen"
    return .boolean ((← heap).isFrozen id)
  | .isSealed =>
    let id ← objectArgument args "isSealed"
    return .boolean ((← heap).isSealed id)
  | .toString =>
    let tag := classTag (← heap) this
    return .string s!"[object {tag}]"
  | .valueOf => return .object (← toObject this)
  | .hasOwnProperty => return .boolean (← receiverProperty this args).isSome
  | .isPrototypeOf =>
    match argument args 0 with
    | .object v =>
      let id ← toObject this
      return .boolean ((← heap).inherits v id)
    | _ => return .boolean false
  | .propertyIsEnumerable =>
    return .boolean ((← receiverProperty this args).any Descriptor.enumerable)

end Ecma
