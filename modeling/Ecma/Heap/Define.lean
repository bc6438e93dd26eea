import Ecma.Heap.Store
import Ecma.Number.Word

set_option autoImplicit false

/-!
Defining and deleting own properties. Each operation says whether it was accepted; a rejected one
leaves the heap as it was, except that an array may have lost the elements above one that could not
be removed.
-/

namespace Ecma

/-- What becomes of a definition. -/
inductive Verdict where
  | add
  | change
  | keep
  | reject
deriving DecidableEq, Repr, Inhabited

namespace Heap

/-- Compares a definition with what is there. -/
def judge (h : Heap) (id : ObjectId) (key : PropertyKey) (d : Definition) : Verdict :=
  match h.own? id key with
  | none => if (h.object id).extensible then .add else .reject
  | some current =>
    if d.isEmpty || d.isWithin current then .keep
    else if d.mayChange current then .change
    else .reject

/-- Defines a property by the rules for all objects. -/
def defineOrdinary (h : Heap) (id : ObjectId) (key : PropertyKey) (d : Definition) : Bool × Heap :=
  match h.judge id key d with
  | .add => (true, h.store id key d.create)
  | .change => (true, h.modifyProperties id fun t => t.modify key d.apply)
  | .keep => (true, h)
  | .reject => (false, h)

/-- Deletes a property; one that is not configurable stays. -/
def delete (h : Heap) (id : ObjectId) (key : PropertyKey) : Bool × Heap :=
  match h.own? id key with
  | none => (true, h)
  | some d =>
    if d.configurable then (true, (h.modifyProperties id fun t => t.erase key).unmap id key)
    else (false, h)

/-! Arrays. -/

/-- The length of an array and whether it can be written. -/
def lengthOf (h : Heap) (id : ObjectId) : Nat × Bool :=
  match h.own? id .length with
  | some (.data (.number x) w _ _) => (Number.clamp (Number.wordCount - 1) x, w)
  | _ => (0, true)

/-- Deletes elements in the given order; the first one that stays ends it and is returned. -/
def deleteElements (h : Heap) (id : ObjectId) : List Nat → Option Nat × Heap
  | [] => (none, h)
  | i :: rest =>
    match h.delete id (.index i) with
    | (true, h) => h.deleteElements id rest
    | (false, h) => (some i, h)

/-- The elements from an index on, the last one first. -/
def elementsFrom (h : Heap) (id : ObjectId) (start : Nat) : List Nat :=
  ((h.object id).properties.indices.filter (start ≤ ·)).reverse

/-- Makes an array shorter: elements go from the end until one stays, and the length ends above
that one. The length becomes read-only last, so that it can follow the elements. -/
def shrink (h : Heap) (id : ObjectId) (d : Definition) (length : Nat) : Bool × Heap :=
  let readOnly := d.writable = some false
  let d := if readOnly then d.withWritable true else d
  match h.defineOrdinary id .length d with
  | (false, h) => (false, h)
  | (true, h) =>
    match h.deleteElements id (h.elementsFrom id length) with
    | (some i, h) =>
      let stuck := d.withValue (.ofNat (i + 1))
      let stuck := if readOnly then stuck.withWritable false else stuck
      (false, (h.defineOrdinary id .length stuck).2)
    | (none, h) =>
      if readOnly then (true, (h.defineOrdinary id .length { writable := some false }).2)
      else (true, h)

/-- Defines the length of an array whose length and writability are those given. -/
def defineLength (h : Heap) (id : ObjectId) (d : Definition) (length : Nat) (old : Nat × Bool) :
    Bool × Heap :=
  let d := d.withValue (.ofNat length)
  if old.1 ≤ length then h.defineOrdinary id .length d
  else if !old.2 then (false, h)
  else h.shrink id d length

/-- Defines an element of an array; the length stays above it. -/
def defineElement (h : Heap) (id : ObjectId) (i : Nat) (d : Definition) : Bool × Heap :=
  let (length, lengthWritable) := h.lengthOf id
  if length ≤ i && !lengthWritable then (false, h)
  else
    match h.defineOrdinary id (.index i) d with
    | (false, h) => (false, h)
    | (true, h) =>
      if length ≤ i then
        (true, h.modifyProperties id fun t => t.modify .length (·.withValue (.ofNat (i + 1))))
      else (true, h)

/-! Arguments objects. -/

/-- Making an element read-only keeps the value its parameter has. -/
def freezeAliased (h : Heap) (id : ObjectId) (key : PropertyKey) (d : Definition) : Definition :=
  if d.value.isNone && d.writable = some false then
    match h.own? id key with
    | some (.data v _ _ _) => d.withValue v
    | _ => d
  else d

/-- What an accepted definition of an element does to the parameter it stands for. -/
def followAlias (h : Heap) (id : ObjectId) (key : PropertyKey) (a : Alias) (d : Definition) : Heap :=
  if d.isAccessor then h.unmap id key
  else
    let h := match d.value with
      | some v => h.writeAlias a v
      | none => h
    if d.writable = some false then h.unmap id key else h

/-- Defines a property of an arguments object. -/
def defineArgument (h : Heap) (id : ObjectId) (key : PropertyKey) (d : Definition) : Bool × Heap :=
  match h.alias? id key with
  | none => h.defineOrdinary id key d
  | some a =>
    let d := h.freezeAliased id key d
    match h.defineOrdinary id key d with
    | (false, h) => (false, h)
    | (true, h) => (true, h.followAlias id key a d)

/-- Defines an own property of any object. The length of an array is taken as it is; its value has to
be a length already. -/
def define (h : Heap) (id : ObjectId) (key : PropertyKey) (d : Definition) : Bool × Heap :=
  match h.kind id, key with
  | .array, .index i => h.defineElement id i d
  | .arguments _, _ => h.defineArgument id key d
  | _, _ => h.defineOrdinary id key d

end Heap

end Ecma
