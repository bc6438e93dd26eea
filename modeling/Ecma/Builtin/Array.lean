import Ecma.Builtin.Argument

set_option autoImplicit false

/-!
The constructor `Array` and the methods of arrays. The methods work on any object with a length and
reach its elements as properties.
-/

namespace Ecma

open Run

def setLength (id : ObjectId) (length : Float) : Run Unit :=
  put id .length (.number length) true

/-- Makes an array of the arguments; a single number is the length instead. -/
def constructArray (args : List Value) : Run Value := do
  match args with
  | [.number x] =>
    if !isLength x then Run.throwError .rangeError "Invalid array length"
    let id ← newArray []
    setLength id x
    return .object id
  | args => return .object (← newArray args)

/-- Writes values at consecutive positions and gives the position after them. -/
def appendElements (id : ObjectId) (position : Nat) : List Value → Run Nat
  | [] => return position
  | v :: rest => do
    put id (.ofNat position) v true
    appendElements id (position + 1) rest

def popElement (id : ObjectId) : Run Value := do
  match ← lengthOfObject id with
  | 0 =>
    setLength id 0.0
    return .undefined
  | last + 1 =>
    let key := PropertyKey.ofNat last
    let v ← get id key
    discard <| deleteOwn id key true
    setLength id (Float.ofNat last)
    return v

/-- The texts of elements; undefined and null have none. -/
def elementTexts (id : ObjectId) (start : Nat) : Nat → List String → Run (List String)
  | 0, texts => return texts.reverse
  | count + 1, texts => do
    match ← get id (.ofNat start) with
    | .undefined => elementTexts id (start + 1) count ("" :: texts)
    | .null => elementTexts id (start + 1) count ("" :: texts)
    | v => elementTexts id (start + 1) count ((← toText v) :: texts)

def joinElements (id : ObjectId) (separator : Value) : Run String := do
  let length ← lengthOfObject id
  let separator ← match separator with
    | .undefined => pure ","
    | v => toText v
  return String.intercalate separator (← elementTexts id 0 length [])

/-- Copies the elements that are there to the front of an array. -/
def copyElements (source target start position : Nat) : Nat → Run Unit
  | 0 => return ()
  | count + 1 => do
    if (← heap).hasProperty source (.ofNat start) then
      let v ← get source (.ofNat start)
      put target (.ofNat position) v true
    copyElements source target (start + 1) (position + 1) count

def sliceElements (id : ObjectId) (start stop : Value) : Run ObjectId := do
  let length := Float.ofNat (← lengthOfObject id)
  let start := relativeIndex (← toInteger start) length
  let stop ← rangeEnd stop length
  let start := Number.clamp indexBound start
  let count := Number.clamp indexBound stop - start
  let target ← newArray []
  copyElements id target start 0 count
  setLength target (Float.ofNat count)
  return target

/-- The first position whose element is strictly equal to a value. -/
def findElement (id : ObjectId) (v : Value) (start : Nat) : Nat → Run (Option Nat)
  | 0 => return none
  | count + 1 => do
    if (← heap).hasProperty id (.ofNat start) then
      if strictlyEqual v (← get id (.ofNat start)) then return some start
    findElement id v (start + 1) count

def indexOfElement (id : ObjectId) (v start : Value) : Run Float := do
  let length ← lengthOfObject id
  if length = 0 then return -1.0
  let start ← match start with
    | .undefined => pure 0.0
    | v => toInteger v
  if start ≥ Float.ofNat length then return -1.0
  let start := Number.clamp indexBound (relativeIndex start (Float.ofNat length))
  match ← findElement id v start (length - start) with
  | some position => return Float.ofNat position
  | none => return -1.0

def ArrayFunction.run (f : ArrayFunction) (this : Value) (args : List Value) : Run Value := do
  match f with
  | .constructor => constructArray args
  | .isArray =>
    match argument args 0 with
    | .object id => return .boolean ((← heap).isArray id)
    | _ => return .boolean false
  | .push =>
    let id ← toObject this
    let length ← appendElements id (← lengthOfObject id) args
    setLength id (Float.ofNat length)
    return .ofNat length
  | .pop => popElement (← toObject this)
  | .join => return .string (← joinElements (← toObject this) (argument args 0))
  | .toString => invoke (← toObject this) "join" []
  | .slice => return .object (← sliceElements (← toObject this) (argument args 0) (argument args 1))
  | .indexOf =>
    return .number (← indexOfElement (← toObject this) (argument args 0) (argument args 1))

end Ecma
