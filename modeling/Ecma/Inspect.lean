import Ecma.Realm.State

set_option autoImplicit false

/-!
Snapshots: a value with everything that can be reached from it, as a tree of bounded depth. Objects
are numbered in the order in which the tree comes to them, and an object that has its number already
is only referred to. Taking a snapshot runs no code.
-/

namespace Ecma

/-- What is told of an object besides its prototype and its properties. -/
structure Portrait where
  number : Nat
  className : String
  callable : Option Callable
  /-- The lines of the stack that an error has kept. -/
  stack : Option (List String)
  primitive : Option Value
  extensible : Bool

mutual

inductive Snapshot where
  | primitive (v : Value)
  | intrinsic (name : String)
  /-- An object that is in the tree already. -/
  | seen (number : Nat)
  /-- An object below the greatest depth. -/
  | deep (className : String)
  /-- `rest` counts the properties that are left out at the end. -/
  | object (portrait : Portrait) (prototype : Option Snapshot)
      (properties : Option (List PropertySnapshot)) (rest : Nat)

inductive PropertySnapshot where
  | missing (key : PropertyKey)
  | data (key : PropertyKey) (d : Descriptor) (value : Snapshot)
  | accessor (key : PropertyKey) (d : Descriptor) (getter setter : Option Snapshot)

end

instance : Inhabited Snapshot := ⟨.primitive .undefined⟩

namespace Snapshot

/-- The objects of the tree so far, in the order of their numbers. -/
abbrev Numbering := StateM (List ObjectId)

/-- How deep a tree goes. -/
def depthLimit : Nat := 5

/-- How many properties of an object are shown. -/
def propertyLimit : Nat := 40

def stackOf : ObjectKind → Option (List String)
  | .error frames => some (frames.map StackFrame.text)
  | _ => none

def portrait (o : Object) (number : Nat) : Portrait :=
  { number := number, className := o.kind.className, callable := o.kind.callable?
    stack := stackOf o.kind, primitive := o.kind.primitive?, extensible := o.extensible }

def optional (view : Value → Numbering Snapshot) : Option ObjectId → Numbering (Option Snapshot)
  | none => return none
  | some id => return some (← view (.object id))

/-- The snapshots of properties, in their order; of an accessor the getter comes first. -/
def properties (h : Heap) (id : ObjectId) (view : Value → Numbering Snapshot) :
    List PropertyKey → Numbering (List PropertySnapshot)
  | [] => return []
  | key :: rest => do
    let first ← match h.own? id key with
      | none => pure (.missing key)
      | some (.accessor getter setter e c) => do
        let g ← optional view getter
        let s ← optional view setter
        pure (.accessor key (.accessor getter setter e c) g s)
      | some d => do
        let v ← view d.value
        pure (.data key d v)
    let others ← properties h id view rest
    return first :: others

/-- The snapshot of an object that has no number yet. -/
def ofObject (h : Heap) (id : ObjectId) (top : Bool) (view : Value → Numbering Snapshot) :
    Numbering Snapshot := do
  let numbered ← get
  set (numbered ++ [id])
  let o := h.object id
  let prototype ← optional view o.prototype
  let portrait := portrait o (numbered.length + 1)
  if o.kind.callable?.isSome && !top then
    return .object portrait prototype none 0
  let keys := h.ownKeys id
  let shown ← properties h id view (keys.take propertyLimit)
  return .object portrait prototype (some shown) (keys.length - propertyLimit)

/-- The snapshot of a value when so many levels are left. -/
def ofValue (h : Heap) : Nat → Bool → Value → Numbering Snapshot
  | levels, top, .object id => do
    match Intrinsic.name? id with
    | some name => return .intrinsic name
    | none =>
      let numbered ← get
      match numbered.findIdx? (· == id) with
      | some index => return .seen (index + 1)
      | none =>
        match levels with
        | 0 => return .deep (h.kind id).className
        | levels + 1 => ofObject h id top fun v => ofValue h levels false v
  | _, _, v => return .primitive v

end Snapshot

/-- The snapshot of a value. -/
def Heap.snapshot (h : Heap) (v : Value) : Snapshot :=
  ((Snapshot.ofValue h Snapshot.depthLimit true v).run []).1

end Ecma
