import Ecma.Operation.Conversion

set_option autoImplicit false

/-!
Defining, writing and deleting properties from running code. Each takes a flag that says whether a
refusal is an error; the flag changes nothing else.
-/

namespace Ecma

open Run

/-- Reports whether a definition was accepted. -/
def accept (key : PropertyKey) (throws accepted : Bool) : Run Bool := do
  if !accepted && throws then
    let name := key.text
    throwTypeError s!"Cannot redefine property: {name}"
  return accepted

/-- Whether a number is a length: a whole number that fits a word. -/
def isLength (x : Float) : Bool :=
  Float.ofNat (Number.toUint32 x) == x

/-- Defines the length of an array. The old length is read before the new one is converted, which may
run code. -/
def defineArrayLength (id : ObjectId) (d : Definition) (v : Value) (throws : Bool) : Run Bool := do
  let old := (← heap).lengthOf id
  let length ← toNumber v
  if !isLength length then Run.throwError .rangeError "Invalid array length"
  let accepted ← updateHeap fun h => h.defineLength id d (Number.toUint32 length) old
  accept .length throws accepted

/-- Defines an own property of any object. -/
def defineOwn (id : ObjectId) (key : PropertyKey) (d : Definition) (throws : Bool) : Run Bool := do
  let array := (← heap).isArray id
  match d.value with
  | some v =>
    if array && key == .length then defineArrayLength id d v throws
    else accept key throws (← updateHeap fun h => h.define id key d)
  | none => accept key throws (← updateHeap fun h => h.define id key d)

/-- Whether a write to a key would be let through. -/
def canPut (h : Heap) (id : ObjectId) (key : PropertyKey) : Bool :=
  match h.own? id key with
  | some (.accessor _ setter _ _) => setter.isSome
  | some (.data _ w _ _) => w
  | none =>
    let extensible := (h.object id).extensible
    match (h.prototype? id).bind fun p => h.property? p key with
    | some (.accessor _ setter _ _) => setter.isSome
    | some (.data _ w _ _) => extensible && w
    | none => extensible

def readOnly {α : Type} (key : PropertyKey) : Run α :=
  let name := key.text
  throwTypeError s!"Cannot assign to read only property '{name}'"

/-- How a write to an object takes effect. -/
inductive Route where
  /-- The value of an own property is replaced. -/
  | replace
  | refuse
  | callSetter (setter : ObjectId)
  /-- A property without restrictions is added. -/
  | add
deriving DecidableEq, Repr, Inhabited

/-- Decides how a write takes effect. -/
def route (h : Heap) (id : ObjectId) (key : PropertyKey) : Route :=
  match h.own? id key with
  | some (.data _ true _ _) => .replace
  | _ =>
    if canPut h id key then
      match h.property? id key with
      | some (.accessor _ (some setter) _ _) => .callSetter setter
      | _ => .add
    else .refuse

/-- Writes a property of an object. -/
def put (id : ObjectId) (key : PropertyKey) (v : Value) (throws : Bool) : Run Unit := do
  match route (← heap) id key with
  | .replace => discard <| defineOwn id key (.ofValue v) throws
  | .refuse => if throws then readOnly key
  | .callSetter setter => discard <| call (.object setter) (.object id) [v]
  | .add => discard <| defineOwn id key (.ofDescriptor (.free v)) throws

/-- Writes a property of any value. A write to a primitive can only call a setter. -/
def putOf (base : Value) (key : PropertyKey) (v : Value) (strict : Bool) : Run Unit := do
  match base with
  | .object id => put id key v strict
  | _ =>
    let id ← toObject base
    let h ← heap
    if !canPut h id key then
      if strict then readOnly key
    else if (h.own? id key).any Descriptor.isData then
      if strict then readOnly key
    else
      match h.property? id key with
      | some (.accessor _ (some setter) _ _) => discard <| call (.object setter) base [v]
      | _ =>
        if strict then
          let name := key.text
          let value := base.primitiveText
          throwTypeError s!"Cannot create property '{name}' on {value}"

/-- Deletes an own property and says whether it is gone. -/
def deleteOwn (id : ObjectId) (key : PropertyKey) (throws : Bool) : Run Bool := do
  let gone ← updateHeap fun h => h.delete id key
  if !gone && throws then
    let name := key.text
    throwTypeError s!"Cannot delete property '{name}'"
  return gone

/-- Makes an array of elements, some of which may be missing. -/
def newSparseArray (items : List (Option Value)) : Run ObjectId :=
  newObject .array (some Intrinsic.arrayPrototype)
    (.ofElements [("length", .lasting (.ofNat items.length))] items)

def newArray (items : List Value) : Run ObjectId :=
  newSparseArray (items.map some)

/-- Calls a method of an object by name. -/
def invoke (id : ObjectId) (name : String) (args : List Value) : Run Value := do
  let f ← get id (.ofString name)
  if !(← heap).isCallable f then throwTypeError s!"{name} is not a function"
  call f (.object id) args

end Ecma
