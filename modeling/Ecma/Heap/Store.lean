import Ecma.Heap.Environment
import Ecma.Heap.Object
import Ecma.Text.Units

set_option autoImplicit false

/-!
The heap: all objects, environments and local frames, each known by its place. Nothing is ever
removed, and prototypes, bound functions and outer environments always lead to smaller numbers, so
every chain of them ends.
-/

namespace Ecma

structure Heap where
  objects : Array Object := #[]
  environments : Array Environment := #[]
  frames : Array (Array Value) := #[]
deriving Inhabited

namespace Heap

def object (h : Heap) (id : ObjectId) : Object :=
  h.objects[id]?.getD default

def kind (h : Heap) (id : ObjectId) : ObjectKind :=
  (h.object id).kind

def environment (h : Heap) (id : EnvironmentId) : Environment :=
  h.environments[id]?.getD ⟨.declarative [], none⟩

def addObject (h : Heap) (o : Object) : ObjectId × Heap :=
  (h.objects.size, { h with objects := h.objects.push o })

def addEnvironment (h : Heap) (e : Environment) : EnvironmentId × Heap :=
  (h.environments.size, { h with environments := h.environments.push e })

def addFrame (h : Heap) (frame : Array Value) : FrameId × Heap :=
  (h.frames.size, { h with frames := h.frames.push frame })

def modifyObject (h : Heap) (id : ObjectId) (f : Object → Object) : Heap :=
  { h with objects := h.objects.modify id f }

def modifyProperties (h : Heap) (id : ObjectId) (f : PropertyTable → PropertyTable) : Heap :=
  h.modifyObject id fun o => { o with properties := f o.properties }

/-- Stores a descriptor as it is. -/
def store (h : Heap) (id : ObjectId) (key : PropertyKey) (d : Descriptor) : Heap :=
  h.modifyProperties id fun t => t.insert key d

def preventExtensions (h : Heap) (id : ObjectId) : Heap :=
  h.modifyObject id fun o => { o with extensible := false }

/-! Frames and bindings. -/

def slot (h : Heap) (frame : FrameId) (index : Nat) : Value :=
  (h.frames[frame]?.bind (·[index]?)).getD .undefined

def setSlot (h : Heap) (frame : FrameId) (index : Nat) (v : Value) : Heap :=
  { h with frames := h.frames.modify frame fun slots => slots.setIfInBounds index v }

/-- The bindings of a declarative environment. -/
def bindings? (h : Heap) (id : EnvironmentId) : Option Bindings :=
  match (h.environment id).record with
  | .declarative bindings => some bindings
  | .object _ _ => none

/-- Changes the bindings of a declarative environment. -/
def modifyBindings (h : Heap) (id : EnvironmentId) (f : Bindings → Bindings) : Heap :=
  { h with environments := h.environments.modify id fun e =>
      match e with
      | ⟨.declarative bindings, outer⟩ => ⟨.declarative (f bindings), outer⟩
      | e => e }

def readAlias (h : Heap) : Alias → Value
  | .slot frame index => h.slot frame index
  | .binding env name => ((h.bindings? env).bind (·.value? name)).getD .undefined

def writeAlias (h : Heap) (a : Alias) (v : Value) : Heap :=
  match a with
  | .slot frame index => h.setSlot frame index v
  | .binding env name => h.modifyBindings env fun b => b.write name v

/-! Properties. -/

/-- The parameter that a key of an arguments object still stands for. -/
def alias? (h : Heap) (id : ObjectId) (key : PropertyKey) : Option Alias :=
  match h.kind id, key with
  | .arguments mapped, .index i => mapped.lookup i
  | _, _ => none

/-- The value of the parameter that a key stands for. -/
def aliased? (h : Heap) (id : ObjectId) (key : PropertyKey) : Option Value :=
  (h.alias? id key).map h.readAlias

/-- An index of an arguments object stands for its parameter no longer. -/
def unmap (h : Heap) (id : ObjectId) (key : PropertyKey) : Heap :=
  match key with
  | .index i =>
    h.modifyObject id fun o =>
      match o.kind with
      | .arguments mapped => { o with kind := .arguments (mapped.filter fun entry => entry.1 != i) }
      | _ => o
  | .name _ => h

/-- The property that a character of a string is. -/
def character? (s : String) : PropertyKey → Option Descriptor
  | .index i => (Text.unitAt s i).map fun unit => .data (.string (Text.ofUnits [unit])) false true false
  | .name _ => none

/-- The own property of an object. An index that stands for a parameter has the parameter's value;
the characters of a string object are properties that are not stored. -/
def own? (h : Heap) (id : ObjectId) (key : PropertyKey) : Option Descriptor :=
  let o := h.object id
  let stored := o.properties.find? key
  match o.kind with
  | .arguments _ =>
    match h.aliased? id key with
    | some v => stored.map (·.withValue v)
    | none => stored
  | .string s => stored.or (character? s key)
  | _ => stored

/-- The own keys, the characters of a string object first. -/
def ownKeys (h : Heap) (id : ObjectId) : List PropertyKey :=
  let o := h.object id
  match o.kind with
  | .string s => (List.range (Text.unitLength s)).map .index ++ o.properties.keys
  | _ => o.properties.keys

/-! Chains. -/

/-- A link that leads to a smaller number, as all do. -/
def below (id : Nat) (link : Option Nat) : Option Nat :=
  link.filter (· < id)

def prototype? (h : Heap) (id : ObjectId) : Option ObjectId :=
  below id (h.object id).prototype

def outer? (h : Heap) (id : EnvironmentId) : Option EnvironmentId :=
  below id (h.environment id).outer

/-- What is reached by following links, at most so many. -/
def follow (next : Nat → Option Nat) : Nat → Nat → List Nat
  | 0, id => [id]
  | steps + 1, id =>
    match next id with
    | some link => id :: follow next steps link
    | none => [id]

/-- An object and its prototypes; as links only lead to smaller numbers, the count of steps is no
restriction. -/
def prototypeChain (h : Heap) (id : ObjectId) : List ObjectId :=
  follow h.prototype? id id

/-- An environment and those around it. -/
def environmentChain (h : Heap) (id : EnvironmentId) : List EnvironmentId :=
  follow h.outer? id id

/-- The own property or the nearest one of a prototype. -/
def property? (h : Heap) (id : ObjectId) (key : PropertyKey) : Option Descriptor :=
  (h.prototypeChain id).findSome? fun o => h.own? o key

def hasProperty (h : Heap) (id : ObjectId) (key : PropertyKey) : Bool :=
  (h.property? id key).isSome

/-- Whether one object is among the prototypes of another. -/
def inherits (h : Heap) (id ancestor : ObjectId) : Bool :=
  (h.prototypeChain id).tail.contains ancestor

/-! Kinds of objects. -/

def callable? (h : Heap) (id : ObjectId) : Option Callable :=
  (h.kind id).callable?

def isCallable (h : Heap) : Value → Bool
  | .object id => (h.callable? id).isSome
  | _ => false

def isArray (h : Heap) (id : ObjectId) : Bool :=
  match h.kind id with
  | .array => true
  | _ => false

def isStrictFunction (h : Heap) : Value → Bool
  | .object id => (h.callable? id).any Callable.isStrict
  | _ => false

/-- The word that `typeof` gives. -/
def typeOf (h : Heap) : Value → String
  | .undefined => "undefined"
  | .null => "object"
  | .boolean _ => "boolean"
  | .string _ => "string"
  | .number _ => "number"
  | .object id => if (h.callable? id).isSome then "function" else "object"

/-- The text of a value in messages: an object shows its class only. -/
def display (h : Heap) : Value → String
  | .object id =>
    let name := (h.kind id).className
    s!"[object {name}]"
  | v => v.primitiveText

/-- The function at the end of a chain of bound functions, with the receiver and the arguments that
it is called with in the end. -/
def unbindFrom (h : Heap) : Nat → ObjectId → Value → List Value → ObjectId × Value × List Value
  | 0, f, receiver, args => (f, receiver, args)
  | steps + 1, f, receiver, args =>
    match h.callable? f with
    | some (.bound target boundReceiver boundArgs) =>
      h.unbindFrom steps target boundReceiver (boundArgs ++ args)
    | _ => (f, receiver, args)

def unbind (h : Heap) (f : ObjectId) (receiver : Value) (args : List Value) :
    ObjectId × Value × List Value :=
  h.unbindFrom (f + 1) f receiver args

/-! Environments by name. -/

def hasBinding (h : Heap) (env : EnvironmentId) (name : String) : Bool :=
  match (h.environment env).record with
  | .declarative bindings => Dictionary.has bindings name
  | .object id _ => h.hasProperty id (.ofString name)

/-- The environment so many links outward, or the outermost one. -/
def skip (h : Heap) : Nat → EnvironmentId → EnvironmentId
  | 0, env => env
  | links + 1, env =>
    match h.outer? env with
    | some outer => h.skip links outer
    | none => env

/-- The nearest environment that has a name. -/
def findBinding (h : Heap) (env : EnvironmentId) (name : String) : Option EnvironmentId :=
  (h.environmentChain env).find? fun e => h.hasBinding e name

/-- The receiver of functions called by a name of the environment. -/
def implicitReceiver (h : Heap) (env : EnvironmentId) : Value :=
  match (h.environment env).record with
  | .object id true => .object id
  | _ => .undefined

end Heap

end Ecma
